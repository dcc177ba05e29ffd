import PyVerify.Code.Translation
import PyVerify.Proofs.Code.Assembly
import PyVerify.Proofs.Tree.Unplaced

namespace PyVerify.Code

-- Two programs refer to the primitives of the verifier in the same way.
structure Verifier.Same (v w : Verifier) : Prop where
  imported  : v.imported = w.imported
  receivers : ∀ name, name ∈ v.receivers ↔ name ∈ w.receivers
  bare      : ∀ name, v.bare.reverse.lookup name = w.bare.reverse.lookup name
  star      : v.star = w.star

section

variable {e : PyVerify.Expr} {t : Term}

@[simp] theorem describe_unplaced : e.unplaced.describe = e.describe := by
  cases e <;> rfl

@[simp] theorem grouped_unplaced : grouped e.unplaced t = grouped e t := by
  cases e
  case compare links => rcases links with _ | ⟨_, _ | _⟩ <;> simp [grouped]
  all_goals simp [grouped]

@[simp] theorem bare_unplaced : bare e.unplaced t = bare e t := by
  cases e <;> simp [bare]

@[simp] theorem isSliceOrTuple_unplaced : isSliceOrTuple e.unplaced = isSliceOrTuple e := by
  cases e <;> simp [isSliceOrTuple]

@[simp] theorem isUnpacking_unplaced : isUnpacking e.unplaced = isUnpacking e := by
  cases e <;> simp [isUnpacking]

@[simp] theorem isNegated_unplaced : isNegated e.unplaced = isNegated e := by
  cases e
  case unary op _ => cases op <;> simp [isNegated]
  all_goals simp [isNegated]

@[simp] theorem isEmpty_unplacedKeywords {ks : List (KeywordArg PyVerify.Expr)} :
    (Expr.unplacedKeywords ks).isEmpty = ks.isEmpty := by
  cases ks <;> simp

@[simp] theorem rangeArgs?_unplaced : rangeArgs? e.unplaced = (rangeArgs? e).map (·.map Expr.unplaced) := by
  cases e
  case call func args keywords =>
    cases func
    case name id =>
      by_cases hr : id = "range"
      case pos =>
        subst hr
        simp only [Expr.unplaced, rangeArgs?]
        simp
      case neg => simp [rangeArgs?, hr]
    all_goals simp [rangeArgs?]
  all_goals simp [rangeArgs?]

end

variable {v w : Verifier}

namespace Verifier.Same

theorem refl (v : Verifier) : v.Same v :=
  ⟨rfl, fun _ => .rfl, fun _ => rfl, rfl⟩

variable (h : v.Same w)

include h

theorem primitive? (e : PyVerify.Expr) : w.primitive? e.unplaced = v.primitive? e := by
  cases e
  case name id => simp [Verifier.primitive?, h.bare, h.star]
  case attr e i => cases e <;> simp [Verifier.primitive?, h.receivers]
  all_goals simp [Verifier.primitive?]

theorem isReceiver (e : PyVerify.Expr) : w.isReceiver e.unplaced = v.isReceiver e := by
  cases e <;> simp [Verifier.isReceiver, h.receivers]

theorem intType : w.intType = v.intType := by
  simp [Verifier.intType, h.imported]

theorem annotationType (e : PyVerify.Expr) : w.annotationType (some e.unplaced) = v.annotationType (some e) := by
  unfold Verifier.annotationType
  rw [h.intType]
  cases e
  case name => simp only [Expr.unplaced]; split <;> simp_all
  all_goals rfl

theorem annotationType_none : w.annotationType Option.none = v.annotationType Option.none :=
  h.intType

theorem valueType (e : PyVerify.Expr) : w.valueType e.unplaced = v.valueType e := by
  cases e
  case constant value => cases value <;> simp [Verifier.valueType, h.intType]
  all_goals simp [Verifier.valueType, h.intType, h.primitive?]

end Verifier.Same

theorem lowerCall_unplaced (h : v.Same w) (func : PyVerify.Expr) (ts : List Term) :
    lowerCall w func.unplaced ts = lowerCall v func ts := by
  unfold lowerCall
  rw [h.primitive?]
  cases v.primitive? func
  case some => rfl
  case none => cases func <;> rfl

-- What an expression becomes does not depend on where it stands.

mutual

theorem lowerOpen_unplaced (h : v.Same w) : ∀ e : PyVerify.Expr, lowerOpen w e.unplaced = lowerOpen v e
  | .binary _ left op right => by simp [lowerOpen, lowerOpen_unplaced h left, lowerOpen_unplaced h right]
  | .unary _ op operand => by simp [lowerOpen, lowerOpen_unplaced h operand]
  | .bool _ op values => by simp [lowerOpen, lowerOperands_unplaced h values]
  | .compare _ left links => by simp [lowerOpen, lowerOpen_unplaced h left, lowerLinks_unplaced h links]
  | .call _ func args keywords => by simp [lowerOpen, lowerArgs_unplaced h args, lowerCall_unplaced h]
  | .attr _ value i => by simp [lowerOpen, lowerOpen_unplaced h value, h.isReceiver]
  | .subscript _ value index => by simp [lowerOpen, lowerOpen_unplaced h value, lowerOpen_unplaced h index]
  | .conditional _ test body orelse => by
    simp [lowerOpen, lowerOpen_unplaced h test, lowerOpen_unplaced h body, lowerOpen_unplaced h orelse]
  | .name .. | .constant .. | .slice .. | .starred .. | .tuple .. | .list .. | .set .. | .dict .. | .lambda ..
  | .listComp .. | .setComp .. | .dictComp .. | .generator .. | .named .. | .await .. | .yield ..
  | .yieldFrom .. => rfl

theorem lowerOperands_unplaced (h : v.Same w) :
    ∀ es : List PyVerify.Expr, lowerOperands w (es.map Expr.unplaced) = lowerOperands v es
  | []      => rfl
  | e :: es => by simp [lowerOperands, lowerOpen_unplaced h e, lowerOperands_unplaced h es]

theorem lowerArgs_unplaced (h : v.Same w) :
    ∀ es : List PyVerify.Expr, lowerArgs w (es.map Expr.unplaced) = lowerArgs v es
  | []      => rfl
  | e :: es => by simp [lowerArgs, lowerOpen_unplaced h e, lowerArgs_unplaced h es]

theorem lowerLinks_unplaced (h : v.Same w) :
    ∀ links : List (CompareOp × PyVerify.Expr), lowerLinks w (Expr.unplacedLinks links) = lowerLinks v links
  | []            => rfl
  | (op, e) :: ls => by simp [lowerLinks, lowerOpen_unplaced h e, lowerLinks_unplaced h ls]

end

theorem mapM_unplaced {α : Type} {f g : PyVerify.Expr → Lowering α} (h : ∀ e, f e.unplaced = g e)
    (es : List PyVerify.Expr) : (es.map Expr.unplaced).mapM f = es.mapM g := by
  induction es <;> simp_all

section

variable (h : v.Same w)

include h

theorem lower_unplaced (e : PyVerify.Expr) : lower w e.unplaced = lower v e := by
  simp [lower, lowerOpen_unplaced h]

theorem lowerBare_unplaced (e : PyVerify.Expr) : lowerBare w e.unplaced = lowerBare v e := by
  simp [lowerBare, lowerOpen_unplaced h]

theorem lowerTarget_unplaced (e : PyVerify.Expr) : lowerTarget w e.unplaced = lowerTarget v e := by
  cases e
  case name => rfl
  all_goals exact congrArg (some <$> ·) (lower_unplaced h _)

theorem condition_unplaced (e : PyVerify.Expr) : condition w e.unplaced = condition v e := by
  simp [condition, lowerBare_unplaced h]

end

section

variable {target value : PyVerify.Expr} {targets : List PyVerify.Expr} {type : CType} {t : Term}

theorem assignTo_unplaced (place : Option Term) :
    assignTo target.unplaced place type t = assignTo target place type t := by
  cases place
  case none => cases target <;> rfl
  case some => rfl

theorem assignAll_unplaced (places : List (Option Term)) :
    assignAll type t ((targets.map Expr.unplaced).zip places) = assignAll type t (targets.zip places) := by
  induction targets generalizing places
  case nil => rfl
  case cons hi => cases places <;> simp_all [assignAll, assignTo_unplaced]

variable (h : v.Same w)

include h

theorem emitAssign_unplaced :
    emitAssign w (targets.map Expr.unplaced) value.unplaced = emitAssign v targets value := by
  simp [emitAssign, lowerBare_unplaced h, mapM_unplaced (lowerTarget_unplaced h), h.valueType, assignAll_unplaced,
    Function.comp_def]

theorem emitAnnAssign_unplaced { annotation : PyVerify.Expr} {o : Option PyVerify.Expr} :
    emitAnnAssign w target.unplaced annotation.unplaced (Expr.unplacedOption o) =
      emitAnnAssign v target annotation o := by
  cases o
  case none => cases target <;> simp [emitAnnAssign, h.annotationType]
  case some =>
    simp [emitAnnAssign, lowerBare_unplaced h, lowerTarget_unplaced h, h.annotationType, assignTo_unplaced]

theorem emitAugAssign_unplaced {op : BinaryOp} :
    emitAugAssign w target.unplaced op value.unplaced = emitAugAssign v target op value := by
  simp [emitAugAssign, lower_unplaced h]

theorem emitReturn_unplaced {o : Option PyVerify.Expr} :
    emitReturn w (Expr.unplacedOption o) = emitReturn v o := by
  cases o <;> simp [emitReturn, lowerOpen_unplaced h]

theorem emitExpr_unplaced : emitExpr w value.unplaced = emitExpr v value := by
  fun_cases emitExpr v value
  case case1 | case2 => rfl
  case case3 ht hp =>
    have hs : ∀ s body, value.unplaced ≠ .constant s (.str body) := by
      cases value <;> simp_all
    have hc : ∀ s z args keywords, value.unplaced ≠ .call s (.name z "print") args keywords := by
      cases value
      case call func args keywords =>
        cases func
        case name id =>
          have hn : id ≠ "print" := fun hi => hp _ _ _ _ (by rw [hi])
          simp [hn]
        all_goals simp
      all_goals simp
    rw [emitExpr.eq_3 _ _ hs hc, lower_unplaced h]

theorem assertTerm_unplaced {o : Option PyVerify.Expr} :
    assertTerm w t (Expr.unplacedOption o) = assertTerm v t o := by
  unfold assertTerm
  rw [h.imported]
  rcases o with _ | (_ | ⟨_, _ | _⟩)
  all_goals rfl

theorem emitAssert_unplaced {o : Option PyVerify.Expr} :
    emitAssert w value.unplaced (Expr.unplacedOption o) = emitAssert v value o := by
  simp [emitAssert, lowerBare_unplaced h, assertTerm_unplaced h]

omit h in
theorem rangeHeader?_unplaced {counter : String} (args : List PyVerify.Expr) (bounds : List Term) :
    rangeHeader? counter (args.map Expr.unplaced) bounds = rangeHeader? counter args bounds := by
  unfold rangeHeader?
  split <;> simp [Option.any_map]

theorem emitRange_unplaced : emitRange w target.unplaced value.unplaced = emitRange v target value := by
  cases target
  case name id =>
    simp only [emitRange, Expr.unplaced, rangeArgs?_unplaced]
    cases rangeArgs? value
    case none => rfl
    case some args =>
      simp [mapM_unplaced (lower_unplaced h), rangeHeader?_unplaced, h.intType]
  all_goals simp only [emitRange, Expr.unplaced]

end

@[simp] theorem loopElse_unplaced {ss : List PyVerify.Stmt} : loopElse (ss.map Stmt.unplaced) = loopElse ss := by
  simp [loopElse]

mutual

theorem emitStmt_unplaced (h : v.Same w) : ∀ s : PyVerify.Stmt, emitStmt w s.unplaced = emitStmt v s
  | .return _ value => by simp [emitStmt, emitReturn_unplaced h]
  | .if _ test block other => by
    simp [emitStmt, condition_unplaced h, emitBlock_unplaced h block, emitOrelse_unplaced h other]
  | .while _ test block other => by simp [emitStmt, condition_unplaced h, emitBlock_unplaced h block]
  | .for _ _ target iter block other => by simp [emitStmt, emitRange_unplaced h, emitBlock_unplaced h block]
  | .assign _ targets value => by simp [emitStmt, emitAssign_unplaced h]
  | .annAssign _ target annotation value => by simp [emitStmt, emitAnnAssign_unplaced h]
  | .augAssign _ target op value => by simp [emitStmt, emitAugAssign_unplaced h]
  | .expr _ e => by simp [emitStmt, emitExpr_unplaced h]
  | .assert _ test message => by simp [emitStmt, emitAssert_unplaced h]
  | .break _ | .continue _ | .pass _ | .importModules .. | .importFrom .. | .global .. | .nonlocal ..
  | .functionDef .. | .classDef .. | .delete .. | .with .. | .raise .. | .try .. | .match .. | .typeAlias .. => rfl

theorem emitBlock_unplaced (h : v.Same w) :
    ∀ ss : List PyVerify.Stmt, emitBlock w (ss.map Stmt.unplaced) = emitBlock v ss
  | []      => rfl
  | s :: ss => by simp [emitBlock, emitStmt_unplaced h s, emitBlock_unplaced h ss]

theorem emitOrelse_unplaced (h : v.Same w) :
    ∀ ss : List PyVerify.Stmt, emitOrelse w (ss.map Stmt.unplaced) = emitOrelse v ss
  | [] => rfl
  | s :: ss => by
    have hs := emitStmt_unplaced h s
    by_cases hi : ∃ z test block other, s = .if z test block other ∧ ss = []
    case pos =>
      obtain ⟨z, test, block, other, rfl, rfl⟩ := hi
      funext σ
      have he := congrFun hs σ
      rcases hv : emitOrelse v [.if z test block other] σ with ⟨⟨_, _⟩, _, _⟩
      rcases hw : emitOrelse w [(PyVerify.Stmt.if z test block other).unplaced] σ with ⟨⟨_, _⟩, _, _⟩
      have he := (emitStmt_if hw).symm.trans (he.trans (emitStmt_if hv))
      refine hw.trans ?_
      simpa [and_assoc] using he
    case neg =>
      have hu : ∀ z test block other, s.unplaced = .if z test block other → ss.map Stmt.unplaced ≠ [] := by
        cases s <;> simp_all
      rw [List.map_cons, emitOrelse.eq_3 _ _ _ (by simpa using hu), emitOrelse.eq_3 _ _ _ (by simpa using hi)]
      rw [hs, emitBlock_unplaced h ss]

end

-- Nor do the names that are declared.

mutual

theorem targetBindings_unplaced (h : v.Same w) {type : CType} {nested : Bool} :
    ∀ e : PyVerify.Expr, targetBindings w type nested e.unplaced = targetBindings v type nested e
  | .tuple _ items | .list _ items => by simp [targetBindings, targetsBindings_unplaced h items]
  | .starred _ value => by simp [targetBindings, h.intType, targetBindings_unplaced h value]
  | .name .. | .constant .. | .binary .. | .unary .. | .bool .. | .compare .. | .call .. | .attr .. | .subscript ..
  | .slice .. | .set .. | .dict .. | .conditional .. | .lambda .. | .listComp .. | .setComp .. | .dictComp ..
  | .generator .. | .named .. | .await .. | .yield .. | .yieldFrom .. => rfl

theorem targetsBindings_unplaced (h : v.Same w) :
    ∀ es : List PyVerify.Expr, targetsBindings w (es.map Expr.unplaced) = targetsBindings v es
  | []      => rfl
  | e :: es => by simp [targetsBindings, h.intType, targetBindings_unplaced h e, targetsBindings_unplaced h es]

end

mutual

theorem stmtBindings_unplaced (h : v.Same w) {nested : Bool} :
    ∀ s : PyVerify.Stmt, stmtBindings w nested s.unplaced = stmtBindings v nested s
  | .assign _ targets value => by
    simp [stmtBindings, h.valueType, List.flatMap_map, targetBindings_unplaced h]
  | .annAssign _ target annotation value => by
    simp [stmtBindings, h.annotationType, targetBindings_unplaced h]
  | .for _ _ target iter block _ => by
    simp [stmtBindings, h.intType, targetBindings_unplaced h, blockBindings_unplaced h block]
  | .while _ _ block _ => by simp [stmtBindings, blockBindings_unplaced h block]
  | .if _ _ block other => by
    simp [stmtBindings, blockBindings_unplaced h block, blockBindings_unplaced h other]
  | .functionDef .. | .classDef .. | .return .. | .delete .. | .augAssign .. | .with .. | .raise .. | .try ..
  | .match .. | .typeAlias .. | .assert .. | .importModules .. | .importFrom .. | .global .. | .nonlocal ..
  | .expr .. | .pass .. | .break .. | .continue .. => rfl

theorem blockBindings_unplaced (h : v.Same w) {nested : Bool} :
    ∀ ss : List PyVerify.Stmt, blockBindings w nested (ss.map Stmt.unplaced) = blockBindings v nested ss
  | []      => rfl
  | s :: ss => by simp [blockBindings, stmtBindings_unplaced h s, blockBindings_unplaced h ss]

end

section

variable (h : v.Same w)

include h

theorem locals_unplaced {params : List String} {ss : List PyVerify.Stmt} :
    locals w params (ss.map Stmt.unplaced) = locals v params ss := by
  simp [locals, blockBindings_unplaced h]

omit h in
theorem positionals_unplaced {ps : List (Param PyVerify.Expr)} :
    Param.positionals (Expr.unplacedParams ps) = Expr.unplacedParams (Param.positionals ps) := by
  simp only [Param.positionals]
  induction ps
  case nil => rfl
  case cons p _ hi =>
    obtain ⟨_, _, kind, _, _⟩ := p
    cases kind
    all_goals simp [hi]

omit h in
theorem names_unplaced {ps : List (Param PyVerify.Expr)} :
    (Expr.unplacedParams ps).map (·.name.text) = ps.map (·.name.text) := by
  induction ps <;> simp_all

theorem signature_unplaced {ps : List (Param PyVerify.Expr)} :
    ((Expr.unplacedParams ps).map fun p => (w.annotationType p.annotation, identifier p.name.text)) =
      ps.map fun p => (v.annotationType p.annotation, identifier p.name.text) := by
  induction ps
  case nil => rfl
  case cons p _ hi =>
    obtain ⟨_, _, _, annotation, _⟩ := p
    cases annotation
    all_goals simp [hi, h.annotationType, h.annotationType_none]

theorem emitFunction_unplaced {name : String} {ps : List (Param PyVerify.Expr)} {o : Option PyVerify.Expr}
    {block : List PyVerify.Stmt} :
    emitFunction w name (Expr.unplacedParams ps) (Expr.unplacedOption o) (block.map Stmt.unplaced) =
      emitFunction v name ps o block := by
  have ho : w.annotationType (Expr.unplacedOption o) = v.annotationType o := by
    cases o
    case none => exact h.annotationType_none
    case some => exact h.annotationType _
  simp [emitFunction, positionals_unplaced, names_unplaced, signature_unplaced h, ho, blockBindings_unplaced h,
    emitBlock_unplaced h]

end

section

variable {z y x : Span} {id body : String}

theorem isMainGuard_name :
    isMainGuard (.compare z (.name y id) [(.eq, .constant x (.str body))]) =
      (id = "__name__" ∧ body = "__main__" : Bool) := by
  unfold isMainGuard
  split <;> simp_all

theorem isMainGuard_constant :
    isMainGuard (.compare z (.constant y (.str body)) [(.eq, .name x id)]) =
      (body = "__main__" ∧ id = "__name__" : Bool) := by
  unfold isMainGuard
  split <;> simp_all

end

@[simp] theorem isMainGuard_unplaced {e : PyVerify.Expr} : isMainGuard e.unplaced = isMainGuard e := by
  cases e
  case compare left links =>
    rcases links with _ | ⟨⟨op, e⟩, _ | ⟨_, _⟩⟩
    case nil | cons.cons => cases left <;> simp [isMainGuard]
    case cons.nil =>
      cases op
      case eq =>
        cases left
        case name =>
          cases e
          case constant value =>
            cases value
            case str => exact isMainGuard_name.trans isMainGuard_name.symm
            all_goals simp [isMainGuard]
          all_goals simp [isMainGuard]
        case constant value =>
          cases e
          case name =>
            cases value
            case str => exact isMainGuard_constant.trans isMainGuard_constant.symm
            all_goals simp [isMainGuard]
          all_goals simp [isMainGuard]
        all_goals simp [isMainGuard]
      all_goals simp [isMainGuard]
  all_goals simp [isMainGuard]

theorem mainBlock_unplaced {s : PyVerify.Stmt} : mainBlock s.unplaced = (mainBlock s).map Stmt.unplaced := by
  cases s
  case «if» test _ _ =>
    simp only [mainBlock, Stmt.unplaced, isMainGuard_unplaced]
    split <;> simp
  all_goals simp [mainBlock]

theorem emitTopLevel_function {z : Span} {name : Ident} {ds : List PyVerify.Expr}
    {ps : List (Param PyVerify.Expr)} {o : Option PyVerify.Expr} {block : List PyVerify.Stmt} :
    emitTopLevel v (.functionDef z name false ds ps o block) = fun scope =>
      ⟨.definition (.function (emitFunction v name.text ps o block).fst), (emitFunction v name.text ps o block).snd,
        scope⟩ :=
  rfl

theorem emitTopLevel_if {z : Span} {test : PyVerify.Expr} {block other : List PyVerify.Stmt} :
    emitTopLevel v (.if z test block other) =
      if isMainGuard test then do
        let code ← emitBlock v block
        return .main (if other.isEmpty then code else code ++ [.placeholder .guardElse])
      else return .main (← emitStmt v (.if z test block other)) :=
  rfl

theorem emitTopLevel_unplaced (h : v.Same w) (s : PyVerify.Stmt) :
    emitTopLevel w s.unplaced = emitTopLevel v s := by
  have hs := emitStmt_unplaced h s
  cases s
  case functionDef isAsync _ _ _ _ =>
    cases isAsync
    case false =>
      rw [Stmt.unplaced, Stmt.unplacedAll_eq, emitTopLevel_function, emitFunction_unplaced h, emitTopLevel_function]
      rfl
    case true => rfl
  case classDef => rfl
  case «if» test block other =>
    rw [Stmt.unplaced] at hs ⊢
    rw [emitTopLevel_if, emitTopLevel_if, hs]
    simp [emitBlock_unplaced h]
  all_goals exact congrArg (· >>= fun code => pure (Part.main code)) hs

theorem emitTopLevels_unplaced (h : v.Same w) {ss : List PyVerify.Stmt} :
    emitTopLevels w (ss.map Stmt.unplaced) = emitTopLevels v ss := by
  induction ss
  case nil => rfl
  case cons hi => simp [emitTopLevels, emitTopLevel_unplaced h, hi]

-- What a definition becomes depends on itself and on the names of the primitives only.
theorem definition?_unplaced (h : v.Same w) {s : PyVerify.Stmt} : definition? w s.unplaced = definition? v s := by
  rw [← definition?_emitTopLevel (σ := []), ← definition?_emitTopLevel (σ := []), emitTopLevel_unplaced h]

-- The imports of a program are read without their places.

theorem boundName_unplaced {a : Alias} : a.unplaced.boundName = a.boundName := by
  rcases a with ⟨_, _, _ | _⟩ <;> simp [Alias.boundName]

theorem Verifier.addName_unplaced {a : Alias} : v.addName a.unplaced = v.addName a := by
  unfold Verifier.addName
  rw [boundName_unplaced]
  rfl

theorem Verifier.add_unplaced {s : PyVerify.Stmt} : v.add s.unplaced = v.add s := by
  cases s
  case importModules names =>
    have hf : (fun a : Alias => decide (a.name = moduleName)) ∘ Alias.unplaced = fun a => decide (a.name = moduleName) :=
      rfl
    simp only [Verifier.add, Stmt.unplaced, List.filter_map, hf]
    cases names.filter fun a => decide (a.name = moduleName)
    case nil  => rfl
    case cons => simp [boundName_unplaced, -Alias.unplaced]
  case importFrom module names _ =>
    cases module
    case none => rfl
    case some => simp only [Verifier.add, Stmt.unplaced, List.foldl_map, Verifier.addName_unplaced]
  all_goals rfl

end PyVerify.Code
