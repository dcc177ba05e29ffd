import PyVerify.Parser.Statement
import PyVerify.Proofs.Code.Assembly
import PyVerify.Proofs.Code.Word
import PyVerify.Proofs.Parser.Statement

namespace PyVerify.Code

open PyVerify.Token (IsName)

def RangeHeader.words (h : RangeHeader) : List Word :=
  .name h.counter :: (h.start.words ++ (h.stop.words ++ termsWords h.step.toList))

-- The words directly in a statement.
def Stmt.words : Stmt → List Word
  | .declare _ name value         => .name name :: termsWords value.toList
  | .assign t u | .augment t _ u  => t.words ++ u.words
  | .term t | .return t           => t.words
  | .while test _                 => test.words
  | .if branches _                => branches.flatMap fun b => b.fst.words
  | .forRange header _            => header.words
  | .placeholder what             => [.message what.message]
  | .returnUnsupported | .break | .continue => []

-- The statements of a piece of code with all that stand in their blocks.

mutual

def Stmt.sequence : Stmt → List Stmt
  | .while test body      => .while test body :: blockSequence body
  | .if branches orelse   => .if branches orelse :: (branchSequence branches ++ orelseSequence orelse)
  | .forRange header body => .forRange header body :: blockSequence body
  | s                     => [s]

def blockSequence : List Stmt → List Stmt
  | []      => []
  | s :: ss => s.sequence ++ blockSequence ss

def branchSequence : List (Condition × List Stmt) → List Stmt
  | []                => []
  | (_, body) :: rest => blockSequence body ++ branchSequence rest

def orelseSequence : Option (List Stmt) → List Stmt
  | none      => []
  | some body => blockSequence body

end

def Function.words (f : Function) : List Word :=
  .name f.name :: (f.params.map (.name ·.snd) ++ (blockSequence f.body).flatMap Stmt.words)

def Definition.words : Definition → List Word
  | function f        => f.words
  | placeholder what  => [.message what.message]

def Program.words (p : Program) : List Word :=
  p.primitives.map (.name ·.snd) ++ (p.definitions.flatMap Definition.words ++
    (blockSequence p.main).flatMap Stmt.words)

-- A conditional has a branch, and all words are such as a text guarantees.
structure Stmt.IsLexical (s : Stmt) : Prop where
  words     : ∀ w ∈ s.words, w.IsLexical
  branched  : ∀ orelse, s ≠ .if [] orelse

def Lexical (code : List Stmt) : Prop :=
  ∀ s ∈ blockSequence code, s.IsLexical

structure Function.Lexical (f : Function) : Prop where
  name    : (Word.name f.name).IsLexical
  params  : ∀ p ∈ f.params, (Word.name p.snd).IsLexical
  body    : Code.Lexical f.body

section

variable {code more : List Stmt} {s : Stmt}

@[simp] theorem blockSequence_append : blockSequence (code ++ more) = blockSequence code ++ blockSequence more := by
  induction code <;> simp_all [blockSequence]

namespace Lexical

theorem nil : Lexical [] :=
  nofun

theorem append (h : Lexical code) (g : Lexical more) : Lexical (code ++ more) := by
  rw [Lexical, blockSequence_append]
  exact List.forall_mem_append.mpr ⟨h, g⟩

theorem single (hs : s.sequence = [s]) (h : s.IsLexical) : Lexical [s] := by
  simpa [Lexical, blockSequence, hs] using h

theorem assign {t u : Term} (ht : ∀ w ∈ t.words, w.IsLexical) (hu : ∀ w ∈ u.words, w.IsLexical) :
    Lexical [.assign t u] :=
  .single rfl ⟨List.forall_mem_append.mpr ⟨ht, hu⟩, nofun⟩

end Lexical

end

-- What a placeholder names.
def Placeholder.detail : Placeholder → String
  | kind text | augmented text => text
  | assignment cause | augmentedAssignment cause | assertion cause | expression cause | rangeBound cause =>
    cause.message
  | unpacking | loopTarget | loopIterable | loopElse | guardElse => ""

theorem isRemark_symbol {op : BinaryOp} (h : infixOp? op = none) : isRemark op.symbol := by
  cases op <;> cases h <;> decide

theorem Placeholder.lexical_of_detail {what : Placeholder} (h : isRemark what.detail) :
    (Word.message what.message).IsLexical := by
  unfold Word.IsLexical message
  cases what <;> simp_all [isRemark, detail, toString]

theorem isRemark_describe_stmt {s : PyVerify.Stmt} : isRemark s.describe := by
  cases s <;> simp [PyVerify.Stmt.describe, isRemark]

section

variable {v : Verifier} {e target iter : PyVerify.Expr} {es : List PyVerify.Expr} {s : PyVerify.Stmt}
  {code declaration : List Stmt} {n : Notes} {σ τ : Scope} {type : CType} {ident : String} {value : Term}

theorem Fails.lexical {cause : Unsupported} (h : Fails v e cause) (hv : v.Lexical) (he : e.Lexical) : cause.Lexical :=
  lexical_of_lowerOpen hv e he h

theorem Tests.lexical {c : Condition} (h : Tests v e c n) (hv : v.Lexical) (he : e.Lexical) :
    ∀ w ∈ c.words, w.IsLexical := by
  cases h
  case term h => simpa [Condition.words] using h.lexical hv he
  case unsupported h => exact List.forall_mem_singleton.mpr <| h.lexical hv he

theorem Declares.lexical (h : Declares type ident σ code τ) (hi : IsName ident) : Lexical code := by
  cases h
  case new    => exact .single rfl ⟨List.forall_mem_singleton.mpr <| .inr ⟨_, hi, rfl⟩, nofun⟩
  case known  => exact .nil

theorem Assigns.lexical {p : Option Term} {m : Notes} (hp : Places v e p m)
    (ha : Assigns type value e p σ code τ) (hv : v.Lexical) (he : e.Lexical) (hw : ∀ w ∈ value.words, w.IsLexical) :
    Lexical code := by
  cases hp
  case name =>
    have hi : (Word.name (identifier _)).IsLexical := .inr ⟨_, he.self, rfl⟩
    cases ha
    case new    => exact .single rfl ⟨List.forall_mem_cons.mpr ⟨hi, by simpa [termsWords] using hw⟩, nofun⟩
    case known  => exact .assign (List.forall_mem_singleton.mpr hi) hw
  case term ht =>
    cases ha
    exact .assign (by simpa using ht.lexical hv he) hw

theorem AssignsAll.lexical {ps : List (Option Term)} {m : Notes} (hp : PlacesAll v es ps m)
    (ha : AssignsAll type value es ps σ code τ) (hv : v.Lexical) (he : ∀ e ∈ es, e.Lexical)
    (hw : ∀ w ∈ value.words, w.IsLexical) : Lexical code := by
  induction hp generalizing σ code
  case nil =>
    cases ha
    exact .nil
  case cons hp _ hi =>
    cases ha
    case cons ha hs =>
      obtain ⟨he, hes⟩ := List.forall_mem_cons.mp he
      exact .append (ha.lexical hp hv he hw) (hi hs hes)

theorem words_rangeHeader {ts : List Term} {header : RangeHeader} (h : rangeHeader? ident es ts = some header) :
    header.words ⊆ .name ident :: termsWords ts := by
  unfold rangeHeader? at h
  split at h <;> cases h
  all_goals simp [RangeHeader.words, termsWords, Term.words]

theorem lexical_of_rangeArgs {args : List PyVerify.Expr} (h : rangeArgs? iter = some args) (hi : iter.Lexical) :
    ∀ x ∈ args, x.Lexical :=
  fun x hx => hi.part <| part_expr_iff.mpr ⟨x, mem_children_of_rangeArgs? h hx, rfl⟩

theorem Ranges.lexical {header : RangeHeader} (h : Ranges v target iter σ declaration header n τ) (hv : v.Lexical)
    (ht : target.Lexical) (hi : iter.Lexical) : Lexical declaration ∧ ∀ w ∈ header.words, w.IsLexical := by
  obtain ⟨hr, ha, hh, hd⟩ := h
  refine ⟨hd.lexical ht.self, fun w hw => ?_⟩
  have hw := words_rangeHeader hh hw
  rw [ha.words_zipWith fun _ _ => words_grouped] at hw
  obtain rfl | hw := List.mem_cons.mp hw
  · exact .inr ⟨_, ht.self, rfl⟩
  · exact ha.lexical hv (lexical_of_rangeArgs hr hi) w hw

theorem Rejects.lexical {what : Placeholder} (h : Rejects v s what) (hv : v.Lexical) (hs : s.Lexical) :
    Lexical [.placeholder what] := by
  refine .single rfl ⟨List.forall_mem_singleton.mpr <| Placeholder.lexical_of_detail ?_, nofun⟩
  cases h
  case kind                     => exact isRemark_describe_stmt
  case unpacking                => decide
  case value h                  => exact h.lexical hv (hs.part .assignment)
  case target ht h              => exact h.lexical hv (hs.part <| .assigned ht)
  case annotatedValue h         => exact h.lexical hv (hs.part .annotatedValue)
  case annotatedTarget h        => exact h.lexical hv (hs.part .annotated)
  case augment op h             => exact isRemark_symbol h
  case augmentedTarget h        => exact h.lexical hv (hs.part .augmented)
  case augmentedValue h         => exact h.lexical hv (hs.part .augment)
  case expr h                   => exact h.lexical hv (hs.part .alone)
  case assert h                 => exact h.lexical hv (hs.part .asserted)
  case loopTarget | loopIterable => decide
  case bound hr ha h            => exact h.lexical hv (lexical_of_rangeArgs hr (hs.part .forIter) _ ha)

theorem lexical_assertTerm {t : Term} {message : Option PyVerify.Expr} (ht : ∀ w ∈ t.words, w.IsLexical)
    (hm : ∀ x ∈ message, x.Lexical) : ∀ w ∈ (assertTerm v t message).words, w.IsLexical := by
  unfold assertTerm
  split
  case isFalse => simpa [Term.words, termsWords, Word.IsLexical] using ht
  case isTrue =>
    refine List.forall_mem_cons.mpr ⟨.inr ⟨"__ESBMC_assert", by decide, by decide⟩, ?_⟩
    simp only [termsWords, Term.words, List.forall_mem_append]
    refine ⟨ht, List.forall_mem_singleton.mpr ?_, List.forall_mem_nil _⟩
    split
    case h_1 => exact (hm _ rfl).self
    case h_2 =>
      have hb : isEscaped "assertion".toList := by decide
      exact hb

theorem lexical_loopElse {other : List PyVerify.Stmt} : Lexical (loopElse other) := by
  unfold loopElse
  split
  case isTrue   => exact .nil
  case isFalse  => exact .single rfl ⟨List.forall_mem_singleton.mpr <| Placeholder.lexical_of_detail <| by decide, nofun⟩

theorem Lexical.loop {test : Condition} (hw : ∀ w ∈ test.words, w.IsLexical) (h : Lexical code) :
    Lexical [.while test code] := by
  simp only [Lexical, blockSequence, Stmt.sequence, List.append_nil]
  exact List.forall_mem_cons.mpr ⟨⟨hw, nofun⟩, h⟩

theorem Lexical.count {header : RangeHeader} (hw : ∀ w ∈ header.words, w.IsLexical) (h : Lexical code) :
    Lexical [.forRange header code] := by
  simp only [Lexical, blockSequence, Stmt.sequence, List.append_nil]
  exact List.forall_mem_cons.mpr ⟨⟨hw, nofun⟩, h⟩

theorem Lexical.branches {bs : List (Condition × List Stmt)} {final : Option (List Stmt)} (hn : bs ≠ [])
    (hb : ∀ b ∈ bs, (∀ w ∈ b.fst.words, w.IsLexical) ∧ Lexical b.snd) (hf : ∀ code ∈ final, Lexical code) :
    Lexical [.if bs final] := by
  have hs : ∀ s ∈ branchSequence bs, s.IsLexical := by
    clear hn
    induction bs
    case nil => nofun
    case cons b bs hi =>
      obtain ⟨hb, hbs⟩ := List.forall_mem_cons.mp hb
      exact List.forall_mem_append.mpr ⟨hb.right, hi hbs⟩
  have ho : ∀ s ∈ orelseSequence final, s.IsLexical := by
    cases final
    case none => nofun
    case some => exact hf _ rfl
  simp only [Lexical, blockSequence, Stmt.sequence, List.append_nil]
  refine List.forall_mem_cons.mpr ⟨⟨?_, ?_⟩, List.forall_mem_append.mpr ⟨hs, ho⟩⟩
  · exact List.forall_mem_flatMap.mpr fun b hm => (hb b hm).left
  · rintro _ ⟨⟩
    exact hn rfl

end

section

variable {v : Verifier}

mutual

theorem Emits.lexical (hv : v.Lexical) : Emits v s σ code n τ → s.Lexical → Lexical code
  | .silent _, _ | .typedPlace _, _ => .nil
  | .placeholder h, hs => h.lexical hv hs
  | .break, _ | .continue, _ | .returnUnsupported _, _ | .returnZero, _ => .single rfl ⟨nofun, nofun⟩
  | .return h, hs => .single rfl ⟨h.lexical hv (hs.part .returned), nofun⟩
  | .assign _ h hp ha, hs =>
    ha.lexical hp hv (fun _ hx => hs.part (.assigned hx)) (by simpa using h.lexical hv (hs.part .assignment))
  | .annAssign h hp ha, hs =>
    ha.lexical hp hv (hs.part .annotated) (by simpa using h.lexical hv (hs.part .annotatedValue))
  | .typed hd, hs => hd.lexical (hs.part .annotated).self
  | .augAssign _ ht h, hs => by
    refine .single rfl ⟨List.forall_mem_append.mpr ?_, nofun⟩
    simpa using ⟨ht.lexical hv (hs.part .augmented), h.lexical hv (hs.part .augment)⟩
  | .expr _ h, hs => .single rfl ⟨by simpa [Stmt.words] using h.lexical hv (hs.part .alone), nofun⟩
  | .assert h, hs => by
    refine .single rfl ⟨lexical_assertTerm (by simpa using h.lexical hv (hs.part .asserted)) ?_, nofun⟩
    rintro _ ⟨⟩
    exact hs.part .message
  | .if ht hb ho, hs => by
    obtain ⟨hm, hf⟩ := ho.lexical hv fun _ hm => hs.part (.ifElse hm)
    refine .branches (List.cons_ne_nil _ _) (List.forall_mem_cons.mpr ⟨⟨?_, ?_⟩, hm⟩) hf
    · exact ht.lexical hv (hs.part .ifTest)
    · exact hb.lexical hv fun _ hm => hs.part (.ifBody hm)
  | .while ht hb, hs =>
    .append (.loop (ht.lexical hv (hs.part .whileTest)) (hb.lexical hv fun _ hm => hs.part (.whileBody hm)))
      lexical_loopElse
  | .for hr hb, hs => by
    obtain ⟨hd, hw⟩ := hr.lexical hv (hs.part .forTarget) (hs.part .forIter)
    exact .append hd <| .append (.count hw <| hb.lexical hv fun _ hm => hs.part (.forBody hm)) lexical_loopElse

theorem EmitsBlock.lexical (hv : v.Lexical) : EmitsBlock v ss σ code n τ → (∀ s ∈ ss, s.Lexical) → Lexical code
  | .nil, _ => .nil
  | .cons h hs, hl => by
    obtain ⟨hl, hls⟩ := List.forall_mem_cons.mp hl
    exact .append (h.lexical hv hl) (hs.lexical hv hls)

theorem EmitsOrelse.lexical (hv : v.Lexical) : EmitsOrelse v ss σ more final n τ → (∀ s ∈ ss, s.Lexical) →
    (∀ b ∈ more, (∀ w ∈ b.fst.words, w.IsLexical) ∧ Lexical b.snd) ∧ ∀ code ∈ final, Lexical code
  | .nil, _ => ⟨nofun, nofun⟩
  | .elif ht hb ho, hl => by
    have hs := hl _ List.mem_cons_self
    obtain ⟨hm, hf⟩ := ho.lexical hv fun _ hm => hs.part (.ifElse hm)
    refine ⟨List.forall_mem_cons.mpr ⟨⟨ht.lexical hv (hs.part .ifTest), ?_⟩, hm⟩, hf⟩
    exact hb.lexical hv fun _ hm => hs.part (.ifBody hm)
  | .else _ _ h, hl => by
    refine ⟨nofun, ?_⟩
    rintro _ ⟨⟩
    exact h.lexical hv hl

end

end

section

variable {v : Verifier} {s : PyVerify.Stmt} {ss : List PyVerify.Stmt} {code : List Stmt} {σ τ : Scope}

theorem lexical_mainBlock (h : s.Lexical) : ∀ t ∈ mainBlock s, t.Lexical := by
  unfold mainBlock
  split
  case h_1 | h_2 => nofun
  case h_3 =>
    split
    case isTrue   => exact fun _ ht => h.part (.ifBody ht)
    case isFalse  => exact List.forall_mem_singleton.mpr h
  case h_4 => exact List.forall_mem_singleton.mpr h

theorem EmitsTop.lexical (h : EmitsTop v s σ code τ) (hv : v.Lexical) (hs : s.Lexical) : Lexical code := by
  cases h
  case block h => exact h.lexical hv (lexical_mainBlock hs)
  case guard h =>
    refine .append (h.lexical hv <| lexical_mainBlock hs) <| .single rfl ⟨List.forall_mem_singleton.mpr ?_, nofun⟩
    exact Placeholder.lexical_of_detail (by decide)

theorem EmitsMain.lexical (h : EmitsMain v ss σ code τ) (hv : v.Lexical) (hs : ∀ s ∈ ss, s.Lexical) :
    Lexical code := by
  induction h
  case nil => exact .nil
  case cons h _ hi =>
    obtain ⟨hs, hss⟩ := List.forall_mem_cons.mp hs
    exact .append (h.lexical hv hs) (hi hss)

end

section

variable {v : Verifier}

-- What a target binds has a name there.

mutual

theorem isName_targetBindings {type : CType} {nested : Bool} : (e : PyVerify.Expr) → e.Lexical →
    ∀ b ∈ targetBindings v type nested e, IsName b.name
  | .name .., he => List.forall_mem_singleton.mpr he.self
  | .tuple _ items, he => isName_targetsBindings items fun _ hx => he.part (.tupleItem hx)
  | .list _ items, he => isName_targetsBindings items fun _ hx => he.part (.listItem hx)
  | .starred _ e, he => isName_targetBindings e (he.part .starred)
  | .constant .., _ | .binary .., _ | .unary .., _ | .bool .., _ | .compare .., _ | .call .., _ | .attr .., _
  | .subscript .., _ | .slice .., _ | .set .., _ | .dict .., _ | .conditional .., _ | .lambda .., _
  | .listComp .., _ | .setComp .., _ | .dictComp .., _ | .generator .., _ | .named .., _ | .await .., _
  | .yield .., _ | .yieldFrom .., _ => nofun

theorem isName_targetsBindings : (es : List PyVerify.Expr) → (∀ e ∈ es, e.Lexical) →
    ∀ b ∈ targetsBindings v es, IsName b.name
  | [], _ => nofun
  | e :: es, he => by
    obtain ⟨he, hes⟩ := List.forall_mem_cons.mp he
    exact List.forall_mem_append.mpr ⟨isName_targetBindings e he, isName_targetsBindings es hes⟩

end

mutual

theorem isName_stmtBindings {nested : Bool} : (s : PyVerify.Stmt) → s.Lexical →
    ∀ b ∈ stmtBindings v nested s, IsName b.name
  | .assign _ targets _, hs =>
    List.forall_mem_flatMap.mpr fun e he => isName_targetBindings e <| hs.part (.assigned he)
  | .annAssign _ target _ _, hs => isName_targetBindings target (hs.part .annotated)
  | .for _ _ target _ block _, hs => by
    simp only [stmtBindings]
    split
    case isTrue =>
      refine List.forall_mem_append.mpr ⟨isName_targetBindings target (hs.part .forTarget), ?_⟩
      exact isName_blockBindings block fun _ hm => hs.part (.forBody hm)
    case isFalse => nofun
  | .while _ _ block _, hs => isName_blockBindings block fun _ hm => hs.part (.whileBody hm)
  | .if _ _ block other, hs =>
    List.forall_mem_append.mpr ⟨isName_blockBindings block fun _ hm => hs.part (.ifBody hm),
      isName_blockBindings other fun _ hm => hs.part (.ifElse hm)⟩
  | .functionDef .., _ | .classDef .., _ | .return .., _ | .delete .., _ | .augAssign .., _ | .with .., _
  | .raise .., _ | .try .., _ | .match .., _ | .typeAlias .., _ | .assert .., _ | .importModules .., _
  | .importFrom .., _ | .global .., _ | .nonlocal .., _ | .expr .., _ | .pass .., _ | .break .., _
  | .continue .., _ => nofun

theorem isName_blockBindings {nested : Bool} : (ss : List PyVerify.Stmt) → (∀ s ∈ ss, s.Lexical) →
    ∀ b ∈ blockBindings v nested ss, IsName b.name
  | [], _ => nofun
  | s :: ss, hs => by
    obtain ⟨hs, hss⟩ := List.forall_mem_cons.mp hs
    exact List.forall_mem_append.mpr ⟨isName_stmtBindings s hs, isName_blockBindings ss hss⟩

end

theorem hoisted_subset {seen : List String} {bs : List Binding} : hoisted seen bs ⊆ bs := by
  fun_induction hoisted seen bs
  case case1    => exact List.Subset.refl _
  case case3 hi => exact List.cons_subset_cons _ hi
  all_goals exact List.subset_cons_of_subset _ ‹_›

theorem lexical_locals {params : List String} {body : List PyVerify.Stmt} (hs : ∀ s ∈ body, s.Lexical) :
    Lexical (declarations (locals v params body)) := by
  have hb : ∀ b ∈ locals v params body, IsName b.name := fun b hb => isName_blockBindings body hs b (hoisted_subset hb)
  revert hb
  unfold declarations
  induction locals v params body
  case nil => exact fun _ => .nil
  case cons b bs hi =>
    intro hb
    obtain ⟨hb, hbs⟩ := List.forall_mem_cons.mp hb
    have hd : Lexical [.declare b.type (identifier b.name) none] :=
      .single rfl ⟨List.forall_mem_singleton.mpr <| .inr ⟨_, hb, rfl⟩, nofun⟩
    exact hd.append (hi hbs)

theorem lexical_mainBody {m : Module} (h : ∀ s ∈ m.body, s.Lexical) : ∀ s ∈ mainBody m, s.Lexical :=
  List.forall_mem_flatMap.mpr fun s hs => lexical_mainBlock (h s hs)

end

theorem Function.Lexical.of_emitFunction {v : Verifier} {z : Span} {name : Ident} {ds : List PyVerify.Expr}
    {params : List (Param PyVerify.Expr)} {returns : Option PyVerify.Expr} {body : List PyVerify.Stmt}
    (hv : v.Lexical) (h : (PyVerify.Stmt.functionDef z name false ds params returns body).Lexical) :
    (emitFunction v name.text params returns body).fst.Lexical := by
  obtain ⟨hn, hp⟩ := h.self
  have hb : ∀ s ∈ body, s.Lexical := fun s hs => h.part (.functionBody hs)
  obtain ⟨code, n, τ, hc, he⟩ := @emitFunction_body v name.text params returns body
  refine ⟨.inr ⟨_, hn, rfl⟩, ?_, ?_⟩
  case refine_1 => exact List.forall_mem_map.mpr fun p hm => .inr ⟨_, hp p (List.mem_filter.mp hm).left, rfl⟩
  case refine_2 =>
    rw [he]
    exact .append (lexical_locals hb) (hc.lexical hv hb)

end PyVerify.Code
