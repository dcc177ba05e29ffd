import PyVerify.Code.Translation
import PyVerify.Proofs.Code.Lowering

namespace PyVerify.Code

namespace Emit

variable {α β : Type} {x : Emit α} {f : α → Emit β} {a : α} {b : β} {n : Notes} {σ τ : Scope}

theorem bind_eq (h : (x >>= f) σ = ⟨b, n, τ⟩) :
    ∃ a k ρ l, x σ = ⟨a, k, ρ⟩ ∧ f a ρ = ⟨b, l, τ⟩ ∧ k ++ l = n := by
  simp only [bind, Emitted.mk.injEq] at h
  obtain ⟨rfl, rfl, rfl⟩ := h
  exact ⟨_, _, _, _, rfl, rfl, rfl⟩

theorem pure_eq (h : (pure a : Emit α) σ = ⟨a', n, τ⟩) : a = a' ∧ .none = n ∧ σ = τ := by
  cases h
  exact ⟨rfl, rfl, rfl⟩

theorem bind_pure_eq {g : α → β} (h : (x >>= fun a => pure (g a)) σ = ⟨b, n, τ⟩) :
    ∃ a, x σ = ⟨a, n, τ⟩ ∧ g a = b := by
  obtain ⟨a, k, ρ, l, hx, hp, rfl⟩ := bind_eq h
  obtain ⟨hb, rfl, rfl⟩ := pure_eq hp
  exact ⟨a, by simpa using hx, hb⟩

-- An attempt that fails calls for nothing, and none changes the scope.
theorem attempt_bind_eq {y : Lowering α} {k : Except Unsupported α → Emit β} (h : (attempt y >>= k) σ = ⟨b, n, τ⟩) :
    (∃ a l m, y = Except.ok (a, l) ∧ k (.ok a) σ = ⟨b, m, τ⟩ ∧ l ++ m = n) ∨
      ∃ cause, y = Except.error cause ∧ k (.error cause) σ = ⟨b, n, τ⟩ := by
  obtain ⟨r, l, ρ, m, ha, hk, rfl⟩ := bind_eq h
  unfold attempt at ha
  split at ha
  all_goals cases ha
  case h_1 => exact .inl ⟨_, _, _, rfl, hk, rfl⟩
  case h_2 => exact .inr ⟨_, rfl, by simpa using hk⟩

end Emit

inductive Tests (v : Verifier) : PyVerify.Expr → Condition → Notes → Prop
  | term (h : Lowers v e t n)           : Tests v e (.term (bare e t)) n
  | unsupported (h : Fails v e cause)   : Tests v e (.unsupported cause) .none

-- A name that is new to a scope is declared.
inductive Declares (type : CType) (ident : String) : Scope → List Stmt → Scope → Prop
  | new (h : ident ∉ σ)   : Declares type ident σ [.declare type (identifier ident) none] (ident :: σ)
  | known (h : ident ∈ σ) : Declares type ident σ [] σ

-- The counter and the header of a loop over a range.
inductive Ranges (v : Verifier) :
    PyVerify.Expr → PyVerify.Expr → Scope → List Stmt → RangeHeader → Notes → Scope → Prop
  | intro (hr : rangeArgs? iter = some args) (ha : LowersAll v args ts n)
      (hh : rangeHeader? (identifier ident) args (args.zipWith grouped ts) = some header)
      (hd : Declares v.intType ident σ declaration τ) :
      Ranges v (.name z ident) iter σ declaration header n τ

-- What a target is written as, if it is not a name.
inductive Places (v : Verifier) : PyVerify.Expr → Option Term → Notes → Prop
  | name : Places v (.name s ident) none .none
  | term (hn : ∀ s ident, e ≠ .name s ident) (h : Lowers v e t n) :
      Places v e (some (grouped e t)) n

inductive PlacesAll (v : Verifier) : List PyVerify.Expr → List (Option Term) → Notes → Prop
  | nil : PlacesAll v [] [] .none
  | cons (h : Places v e p m) (hs : PlacesAll v es ps n) : PlacesAll v (e :: es) (p :: ps) (m ++ n)

inductive Assigns (type : CType) (value : Term) :
    PyVerify.Expr → Option Term → Scope → List Stmt → Scope → Prop
  | place : Assigns type value target (some t) σ [.assign t value] σ
  | new (h : ident ∉ σ) :
      Assigns type value (.name s ident) none σ
        [.declare type (identifier ident) (some value)] (ident :: σ)
  | known (h : ident ∈ σ) :
      Assigns type value (.name s ident) none σ [.assign (.ident (identifier ident)) value] σ

inductive AssignsAll (type : CType) (value : Term) :
    List PyVerify.Expr → List (Option Term) → Scope → List Stmt → Scope → Prop
  | nil : AssignsAll type value [] [] σ [] σ
  | cons (h : Assigns type value e p σ first ρ) (hs : AssignsAll type value es ps ρ rest τ) :
      AssignsAll type value (e :: es) (p :: ps) σ (first ++ rest) τ

-- Statements that leave nothing in the code.
inductive Silent : PyVerify.Stmt → Prop
  | pass          : Silent (.pass s)
  | importModules : Silent (.importModules s names)
  | importFrom    : Silent (.importFrom s module names level)
  | global        : Silent (.global s names)
  | nonlocal      : Silent (.nonlocal s names)
  | text          : Silent (.expr s (.constant z (.str body)))
  | print         : Silent (.expr s (.call z (.name y "print") args keywords))

-- Statements of a kind that is not translated.
inductive Untranslated : PyVerify.Stmt → Prop
  | functionDef : Untranslated (.functionDef s name isAsync decorators params returns block)
  | classDef    : Untranslated (.classDef s name decorators bases keywords block)
  | delete      : Untranslated (.delete s targets)
  | with        : Untranslated (.with s isAsync items block)
  | raise       : Untranslated (.raise s exc cause)
  | try         : Untranslated (.try s isStar block handlers other final)
  | match       : Untranslated (.match s subject cases)
  | typeAlias   : Untranslated (.typeAlias s name typeParams e)

-- A statement of the source that a comment stands for, and why.
inductive Rejects (v : Verifier) : PyVerify.Stmt → Placeholder → Prop
  | kind (h : Untranslated s) : Rejects v s (.kind s.describe)
  | unpacking (h : targets.any isUnpacking) : Rejects v (.assign s targets e) .unpacking
  | value (hu : ¬targets.any isUnpacking) (h : Fails v e cause) :
      Rejects v (.assign s targets e) (.assignment cause)
  | target (hu : ¬targets.any isUnpacking) (ht : target ∈ targets) (h : Fails v target cause) :
      Rejects v (.assign s targets e) (.assignment cause)
  | annotatedValue (h : Fails v e cause) :
      Rejects v (.annAssign s target annotation (some e)) (.assignment cause)
  | annotatedTarget (h : Fails v target cause) :
      Rejects v (.annAssign s target annotation (some e)) (.assignment cause)
  | augment (h : infixOp? op = none) : Rejects v (.augAssign s target op e) (.augmented op.symbol)
  | augmentedTarget (h : Fails v target cause) :
      Rejects v (.augAssign s target op e) (.augmentedAssignment cause)
  | augmentedValue (h : Fails v e cause) :
      Rejects v (.augAssign s target op e) (.augmentedAssignment cause)
  | expr (hs : ¬Silent (.expr s e)) (h : Fails v e cause) : Rejects v (.expr s e) (.expression cause)
  | assert (h : Fails v e cause) : Rejects v (.assert s e message) (.assertion cause)
  | loopTarget (h : ∀ s ident, target ≠ .name s ident) :
      Rejects v (.for s isAsync target iter block other) .loopTarget
  | loopIterable (h : rangeArgs? iter = none) :
      Rejects v (.for s isAsync (.name z ident) iter block other) .loopIterable
  | bound (hr : rangeArgs? iter = some args) (ha : a ∈ args) (h : Fails v a cause) :
      Rejects v (.for s isAsync (.name z ident) iter block other) (.rangeBound cause)

mutual

-- A statement of the source becomes code that calls for these notes, and takes one scope to the next.
inductive Emits (v : Verifier) : PyVerify.Stmt → Scope → List Stmt → Notes → Scope → Prop
  | silent (h : Silent s) : Emits v s σ [] .none σ
  | placeholder (h : Rejects v s what) : Emits v s σ [.placeholder what] .none σ
  | break : Emits v (.break s) σ [.break] .none σ
  | continue : Emits v (.continue s) σ [.continue] .none σ
  | returnZero : Emits v (.return s none) σ [.return (.int 0)] .none σ
  | return (h : Lowers v e t n) : Emits v (.return s (some e)) σ [.return t] n σ
  | returnUnsupported (h : Fails v e cause) :
      Emits v (.return s (some e)) σ [.returnUnsupported] .none σ
  | assign (hu : ¬targets.any isUnpacking) (h : Lowers v e t m) (hp : PlacesAll v targets places n)
      (ha : AssignsAll (v.valueType e) (bare e t) targets places σ code τ) :
      Emits v (.assign s targets e) σ code (m ++ n) τ
  | annAssign (h : Lowers v e t m) (hp : Places v target place n)
      (ha : Assigns (v.annotationType (some annotation)) (bare e t) target place σ code τ) :
      Emits v (.annAssign s target annotation (some e)) σ code (m ++ n) τ
  | typed (hd : Declares (v.annotationType (some annotation)) ident σ code τ) :
      Emits v (.annAssign s (.name z ident) annotation none) σ code .none τ
  | typedPlace (h : ∀ s ident, target ≠ .name s ident) :
      Emits v (.annAssign s target annotation none) σ [] .none σ
  | augAssign (ho : infixOp? op = some sign) (ht : Lowers v target t m) (h : Lowers v e u n) :
      Emits v (.augAssign s target op e) σ [.augment (grouped target t) sign (grouped e u)]
        (⟨checksOf op, []⟩ ++ (m ++ n)) σ
  | expr (hs : ¬Silent (.expr s e)) (h : Lowers v e t n) :
      Emits v (.expr s e) σ [.term (grouped e t)] n σ
  | assert (h : Lowers v test t n) :
      Emits v (.assert s test message) σ [.term (assertTerm v (bare test t) message)] n σ
  | if (ht : Tests v test c k) (hb : EmitsBlock v block σ code m ρ)
      (ho : EmitsOrelse v other ρ more final n τ) :
      Emits v (.if s test block other) σ [.if ((c, code) :: more) final] (k ++ (m ++ n)) τ
  | while (ht : Tests v test c m) (hb : EmitsBlock v block σ code n τ) :
      Emits v (.while s test block other) σ (.while c code :: loopElse other) (m ++ n) τ
  | for (hr : Ranges v target iter σ declaration header m ρ) (hb : EmitsBlock v block ρ code n τ) :
      Emits v (.for s isAsync target iter block other) σ
        (declaration ++ .forRange header code :: loopElse other) (m ++ n) τ

inductive EmitsBlock (v : Verifier) : List PyVerify.Stmt → Scope → List Stmt → Notes → Scope → Prop
  | nil : EmitsBlock v [] σ [] .none σ
  | cons (h : Emits v s σ first m ρ) (hs : EmitsBlock v ss ρ rest n τ) :
      EmitsBlock v (s :: ss) σ (first ++ rest) (m ++ n) τ

-- The branches of a conditional behind the first one, and the block at its end.
inductive EmitsOrelse (v : Verifier) :
    List PyVerify.Stmt → Scope → List (Condition × List Stmt) → Option (List Stmt) → Notes → Scope →
    Prop
  | nil : EmitsOrelse v [] σ [] none .none σ
  | elif (ht : Tests v test c k) (hb : EmitsBlock v block σ code m ρ)
      (ho : EmitsOrelse v other ρ more final n τ) :
      EmitsOrelse v [.if s test block other] σ ((c, code) :: more) final (k ++ (m ++ n)) τ
  | else (hs : ss ≠ []) (hi : ∀ s test block other, ss ≠ [.if s test block other])
      (h : EmitsBlock v ss σ code n τ) : EmitsOrelse v ss σ [] (some code) n τ

end

variable {v : Verifier} {e : PyVerify.Expr} {es : List PyVerify.Expr} {type : CType} {value : Term}
  {n : Notes} {σ τ : Scope} {code : List Stmt}

open Emit Lowering

theorem Tests.of_condition {c : Condition} (h : condition v e σ = ⟨c, n, τ⟩) : Tests v e c n ∧ σ = τ := by
  obtain ⟨t, _, _, ht, hk, rfl⟩ | ⟨cause, hf, hk⟩ := attempt_bind_eq h
  all_goals obtain ⟨rfl, rfl, rfl⟩ := pure_eq hk
  case inl =>
    obtain ⟨u, hu, rfl⟩ := lowerBare_eq_ok_iff.mp ht
    simpa using Tests.term hu
  case inr => exact ⟨.unsupported (.of_lowerBare hf), rfl⟩

theorem Places.of_lowerTarget {p : Option Term} (h : lowerTarget v e = Except.ok (p, n)) : Places v e p n := by
  unfold lowerTarget at h
  split at h
  case h_1 =>
    obtain ⟨rfl, rfl⟩ := pure_eq_ok h
    exact .name
  case h_2 hn =>
    rw [map_eq_pure_bind] at h
    obtain ⟨t, ht, rfl⟩ := bind_pure_eq_ok h
    obtain ⟨u, hu, rfl⟩ := lower_eq_ok_iff.mp ht
    exact .term hn hu

theorem Fails.of_lowerTarget {cause : Unsupported} (h : lowerTarget v e = Except.error cause) :
    Fails v e cause := by
  unfold lowerTarget at h
  split at h
  case h_1 => cases h
  case h_2 =>
    rw [map_eq_pure_bind] at h
    exact .of_lower (bind_pure_eq_error h)

theorem PlacesAll.of_mapM {ps : List (Option Term)} (h : es.mapM (lowerTarget v) = Except.ok (ps, n)) :
    PlacesAll v es ps n := by
  induction es generalizing ps n
  case nil =>
    obtain ⟨rfl, rfl⟩ := pure_eq_ok h
    exact .nil
  case cons e es hi =>
    rw [List.mapM_cons] at h
    obtain ⟨_, _, _, he, h₁, rfl⟩ := bind_eq_ok h
    obtain ⟨_, hs, rfl⟩ := bind_pure_eq_ok h₁
    exact .cons (.of_lowerTarget he) (hi hs)

-- What `declare` answers, and where the name is afterwards.
theorem Emit.declare_eq {ident : String} {b : Bool} (h : declare ident σ = ⟨b, n, τ⟩) :
    .none = n ∧ (b = true ∧ ident ∉ σ ∧ ident :: σ = τ ∨ b = false ∧ ident ∈ σ ∧ σ = τ) := by
  unfold declare at h
  split at h
  all_goals
    cases h
    simp_all

theorem Declares.of_declare {ident : String} {b : Bool} (h : declare ident σ = ⟨b, n, τ⟩) :
    .none = n ∧
      Declares type ident σ (if b then [.declare type (identifier ident) none] else []) τ := by
  obtain ⟨hn, ⟨rfl, hi, rfl⟩ | ⟨rfl, hi, rfl⟩⟩ := declare_eq h
  · exact ⟨hn, .new hi⟩
  · exact ⟨hn, .known hi⟩

theorem Assigns.of_assignTo {p : Option Term} {m : Notes} (hp : Places v e p m)
    (h : assignTo e p type value σ = ⟨code, n, τ⟩) : .none = n ∧ Assigns type value e p σ code τ := by
  cases hp
  case term =>
    obtain ⟨rfl, rfl, rfl⟩ := pure_eq h
    exact ⟨rfl, .place⟩
  case name =>
    obtain ⟨_, _, _, _, hd, hr, rfl⟩ := bind_eq h
    obtain ⟨rfl, ⟨rfl, hn, rfl⟩ | ⟨rfl, hn, rfl⟩⟩ := declare_eq hd
    all_goals obtain ⟨rfl, rfl, rfl⟩ := pure_eq hr
    · exact ⟨rfl, .new hn⟩
    · exact ⟨rfl, .known hn⟩

theorem AssignsAll.of_assignAll {ps : List (Option Term)} {m : Notes} (hp : PlacesAll v es ps m)
    (h : assignAll type value (es.zip ps) σ = ⟨code, n, τ⟩) :
    .none = n ∧ AssignsAll type value es ps σ code τ := by
  induction hp generalizing σ code n
  case nil =>
    obtain ⟨rfl, rfl, rfl⟩ := pure_eq h
    exact ⟨rfl, .nil⟩
  case cons hp _ hi =>
    obtain ⟨_, _, _, _, h₁, h₂, rfl⟩ := bind_eq h
    obtain ⟨_, h₃, rfl⟩ := bind_pure_eq h₂
    obtain ⟨rfl, hf⟩ := Assigns.of_assignTo hp h₁
    obtain ⟨rfl, hs⟩ := hi h₃
    exact ⟨by simp, .cons hf hs⟩

section

variable {s : Span}

theorem Emits.of_emitReturn {o : Option PyVerify.Expr} (h : emitReturn v o σ = ⟨code, n, τ⟩) :
    Emits v (.return s o) σ code n τ := by
  cases o
  case none =>
    obtain ⟨rfl, rfl, rfl⟩ := pure_eq h
    exact .returnZero
  case some e =>
    obtain ⟨t, _, _, ht, hk, rfl⟩ | ⟨cause, hf, hk⟩ := attempt_bind_eq h
    all_goals obtain ⟨rfl, rfl, rfl⟩ := pure_eq hk
    · simpa using Emits.return (.of_lowerOpen e ht)
    · exact .returnUnsupported hf

theorem Emits.of_emitExpr (h : emitExpr v e σ = ⟨code, n, τ⟩) : Emits v (.expr s e) σ code n τ := by
  unfold emitExpr at h
  split at h
  case h_1 =>
    obtain ⟨rfl, rfl, rfl⟩ := pure_eq h
    exact .silent .text
  case h_2 =>
    obtain ⟨rfl, rfl, rfl⟩ := pure_eq h
    exact .silent .print
  case h_3 ht hp =>
    have hs : ¬Silent (.expr s e) := by
      intro hs
      cases hs
      case text   => exact ht _ _ rfl
      case print  => exact hp _ _ _ _ rfl
    obtain ⟨t, _, _, ht, hk, rfl⟩ | ⟨cause, hf, hk⟩ := attempt_bind_eq h
    all_goals obtain ⟨rfl, rfl, rfl⟩ := pure_eq hk
    case inl =>
      obtain ⟨u, hu, rfl⟩ := lower_eq_ok_iff.mp ht
      simpa using Emits.expr hs hu
    case inr => exact .placeholder (.expr hs <| .of_lower hf)

theorem Emits.of_emitAssert {message : Option PyVerify.Expr}
    (h : emitAssert v e message σ = ⟨code, n, τ⟩) : Emits v (.assert s e message) σ code n τ := by
  obtain ⟨t, _, _, ht, hk, rfl⟩ | ⟨cause, hf, hk⟩ := attempt_bind_eq h
  all_goals obtain ⟨rfl, rfl, rfl⟩ := pure_eq hk
  case inl =>
    obtain ⟨u, hu, rfl⟩ := lowerBare_eq_ok_iff.mp ht
    simpa using Emits.assert hu
  case inr => exact .placeholder (.assert <| .of_lowerBare hf)

theorem Emits.of_emitAugAssign {target : PyVerify.Expr} {op : BinaryOp}
    (h : emitAugAssign v target op e σ = ⟨code, n, τ⟩) : Emits v (.augAssign s target op e) σ code n τ := by
  unfold emitAugAssign at h
  cases ho : infixOp? op <;> simp only [ho] at h
  case none =>
    obtain ⟨rfl, rfl, rfl⟩ := pure_eq h
    exact .placeholder (.augment ho)
  case some =>
    obtain ⟨t, _, _, ht, hk, rfl⟩ | ⟨cause, hf, hk⟩ := attempt_bind_eq h
    all_goals obtain ⟨rfl, rfl, rfl⟩ := pure_eq hk
    case inl =>
      obtain ⟨_, h₃, rfl⟩ := note_bind_eq_ok ht
      obtain ⟨_, _, _, h₄, h₅, rfl⟩ := bind_eq_ok h₃
      obtain ⟨_, h₆, rfl⟩ := bind_pure_eq_ok h₅
      obtain ⟨_, hl, rfl⟩ := lower_eq_ok_iff.mp h₄
      obtain ⟨_, hr, rfl⟩ := lower_eq_ok_iff.mp h₆
      simpa using Emits.augAssign ho hl hr
    case inr =>
      obtain h₃ | ⟨_, _, _, h₃⟩ := bind_eq_error hf
      case inl => cases h₃
      case inr =>
        obtain h₄ | ⟨_, _, _, h₄⟩ := bind_eq_error h₃
        · exact .placeholder (.augmentedTarget <| .of_lower h₄)
        · exact .placeholder (.augmentedValue <| .of_lower <| bind_pure_eq_error h₄)

theorem Emits.of_emitAssign {targets : List PyVerify.Expr} (h : emitAssign v targets e σ = ⟨code, n, τ⟩) :
    Emits v (.assign s targets e) σ code n τ := by
  unfold emitAssign at h
  split at h
  case isTrue hu =>
    obtain ⟨rfl, rfl, rfl⟩ := pure_eq h
    exact .placeholder (.unpacking hu)
  case isFalse hu =>
    obtain ⟨⟨t, places⟩, _, _, ht, hk, rfl⟩ | ⟨cause, hf, hk⟩ := attempt_bind_eq h
    case inl =>
      obtain ⟨_, _, _, h₃, h₄, rfl⟩ := bind_eq_ok ht
      obtain ⟨_, h₅, h₆⟩ := bind_pure_eq_ok h₄
      obtain ⟨rfl, rfl⟩ := Prod.mk.inj h₆
      obtain ⟨u, hu', rfl⟩ := lowerBare_eq_ok_iff.mp h₃
      have hp := PlacesAll.of_mapM h₅
      obtain ⟨rfl, ha⟩ := AssignsAll.of_assignAll hp hk
      simpa using Emits.assign hu hu' hp ha
    case inr =>
      obtain ⟨rfl, rfl, rfl⟩ := pure_eq hk
      obtain h₃ | ⟨_, _, _, h₃⟩ := bind_eq_error hf
      case inl => exact .placeholder (.value hu <| .of_lowerBare h₃)
      case inr =>
        obtain ⟨target, ht, h₄⟩ := mapM_eq_error (bind_pure_eq_error h₃)
        exact .placeholder (.target hu ht <| .of_lowerTarget h₄)

theorem Emits.of_emitAnnAssign {target annotation : PyVerify.Expr} {o : Option PyVerify.Expr}
    (h : emitAnnAssign v target annotation o σ = ⟨code, n, τ⟩) :
    Emits v (.annAssign s target annotation o) σ code n τ := by
  cases o
  case none =>
    simp only [emitAnnAssign] at h
    split at h
    case h_1 =>
      obtain ⟨b, _, _, _, h₁, h₂, rfl⟩ := bind_eq h
      obtain ⟨rfl, hd⟩ := Declares.of_declare h₁
      cases b
      all_goals
        obtain ⟨rfl, rfl, rfl⟩ := pure_eq h₂
        simpa using Emits.typed hd
    case h_2 hn =>
      obtain ⟨rfl, rfl, rfl⟩ := pure_eq h
      exact .typedPlace hn
  case some e =>
    obtain ⟨⟨t, place⟩, _, _, ht, hk, rfl⟩ | ⟨cause, hf, hk⟩ := attempt_bind_eq h
    case inl =>
      obtain ⟨_, _, _, h₃, h₄, rfl⟩ := bind_eq_ok ht
      obtain ⟨_, h₅, h₆⟩ := bind_pure_eq_ok h₄
      obtain ⟨rfl, rfl⟩ := Prod.mk.inj h₆
      obtain ⟨u, hu, rfl⟩ := lowerBare_eq_ok_iff.mp h₃
      have hp := Places.of_lowerTarget h₅
      obtain ⟨rfl, ha⟩ := Assigns.of_assignTo hp hk
      simpa using Emits.annAssign hu hp ha
    case inr =>
      obtain ⟨rfl, rfl, rfl⟩ := pure_eq hk
      obtain h₃ | ⟨_, _, _, h₃⟩ := bind_eq_error hf
      · exact .placeholder (.annotatedValue <| .of_lowerBare h₃)
      · exact .placeholder (.annotatedTarget <| .of_lowerTarget <| bind_pure_eq_error h₃)

end

theorem rangeArgs?_length {args : List PyVerify.Expr} (h : rangeArgs? e = some args) :
    1 ≤ args.length ∧ args.length ≤ 3 := by
  unfold rangeArgs? at h
  split at h
  case h_1 =>
    split at h
    all_goals simp_all
  case h_2 => cases h

theorem mem_children_of_rangeArgs? {x : PyVerify.Expr} {args : List PyVerify.Expr}
    (h : rangeArgs? e = some args) (hx : x ∈ args) : x ∈ e.children := by
  unfold rangeArgs? at h
  split at h
  case h_1 =>
    split at h
    all_goals simp_all [Expr.children]
  case h_2 => cases h

theorem rangeHeader?_ne_none {ident : String} {ts : List Term} (h : 1 ≤ ts.length ∧ ts.length ≤ 3) :
    rangeHeader? ident es ts ≠ none := by
  fun_cases rangeHeader? ident es ts
  all_goals simp_all
  case case4 h₁ h₂ h₃ =>
    match ts with
    | [a] => simp at h₁
    | [a, b] => simp at h₂
    | [a, b, c] => simp at h₃

theorem Ranges.of_emitRange {target iter : PyVerify.Expr} {r : Except Placeholder (List Stmt × RangeHeader)}
    (h : emitRange v target iter σ = ⟨r, n, τ⟩) :
    (∃ declaration header, r = .ok (declaration, header) ∧
      Ranges v target iter σ declaration header n τ) ∨
    ∃ what, r = .error what ∧ .none = n ∧ σ = τ ∧
      ∀ s isAsync block other, Rejects v (.for s isAsync target iter block other) what := by
  by_cases ht : ∃ z ident, target = .name z ident
  case neg =>
    have hl : emitRange v target iter = pure (.error .loopTarget) := by
      unfold emitRange
      split <;> simp_all
    obtain ⟨rfl, rfl, rfl⟩ := pure_eq (hl ▸ h)
    exact .inr ⟨_, rfl, rfl, rfl, fun _ _ _ _ => .loopTarget fun z ident hn => ht ⟨z, ident, hn⟩⟩
  case pos =>
    obtain ⟨z, ident, rfl⟩ := ht
    unfold emitRange at h
    cases hr : rangeArgs? iter <;> simp only [hr] at h
    case none =>
      obtain ⟨rfl, rfl, rfl⟩ := pure_eq h
      exact .inr ⟨_, rfl, rfl, rfl, fun _ _ _ _ => .loopIterable hr⟩
    case some args =>
      obtain ⟨ts, _, _, ht, hk, rfl⟩ | ⟨cause, hf, hk⟩ := attempt_bind_eq h
      case inr =>
        obtain ⟨rfl, rfl, rfl⟩ := pure_eq hk
        obtain ⟨a, ha, hf⟩ := mapM_eq_error hf
        exact .inr ⟨_, rfl, rfl, rfl, fun _ _ _ _ => .bound hr ha <| .of_lower hf⟩
      case inl =>
        obtain ⟨us, ha, rfl⟩ := LowersAll.of_mapM ht
        -- A range has one to three arguments, and each of these numbers has its header.
        cases hh : rangeHeader? (identifier ident) args (args.zipWith grouped us)
        case none =>
          refine absurd hh <| rangeHeader?_ne_none ?_
          simpa [ha.length_eq] using rangeArgs?_length hr
        case some header =>
          simp only [hh] at hk
          obtain ⟨b, _, _, _, h₁, h₂, rfl⟩ := bind_eq hk
          obtain ⟨rfl, hd⟩ := Declares.of_declare h₁
          cases b
          all_goals
            obtain ⟨rfl, rfl, rfl⟩ := pure_eq h₂
            exact .inl ⟨_, _, rfl, by simpa using Ranges.intro hr ha hh hd⟩

-- A conditional alone in an `else` block is written like any other one, but for the word before it.
theorem emitStmt_if {z : Span} {test : PyVerify.Expr} {block other : List PyVerify.Stmt}
    {more : List (Condition × List Stmt)} {final : Option (List Stmt)}
    (h : emitOrelse v [.if z test block other] σ = ⟨(more, final), n, τ⟩) :
    emitStmt v (.if z test block other) σ = ⟨[.if more final], n, τ⟩ := by
  simp only [emitOrelse] at h
  obtain ⟨_, _, _, _, h₁, h₂, rfl⟩ := bind_eq h
  obtain ⟨_, _, _, _, h₃, h₄, rfl⟩ := bind_eq h₂
  obtain ⟨_, h₅, h₆⟩ := bind_pure_eq h₄
  obtain ⟨rfl, rfl⟩ := Prod.mk.inj h₆
  simp only [emitStmt, bind, h₁, h₃, h₅]
  simp [pure]

theorem EmitsOrelse.of_if {z : Span} {test : PyVerify.Expr} {block other : List PyVerify.Stmt}
    {more : List (Condition × List Stmt)} {final : Option (List Stmt)}
    (h : Emits v (.if z test block other) σ [.if more final] n τ) :
    EmitsOrelse v [.if z test block other] σ more final n τ := by
  cases h
  exact .elif ‹_› ‹_› ‹_›

mutual

theorem Emits.of_emitStmt : (s : PyVerify.Stmt) → {σ τ : Scope} → {code : List Stmt} → {n : Notes} →
    emitStmt v s σ = ⟨code, n, τ⟩ → Emits v s σ code n τ
  | .return .., _, _, _, _, h => .of_emitReturn h
  | .assign .., _, _, _, _, h => .of_emitAssign h
  | .annAssign .., _, _, _, _, h => .of_emitAnnAssign h
  | .augAssign .., _, _, _, _, h => .of_emitAugAssign h
  | .expr .., _, _, _, _, h => .of_emitExpr h
  | .assert .., _, _, _, _, h => .of_emitAssert h
  | .if _ test block other, _, _, _, _, h => by
    obtain ⟨_, _, _, _, h₁, h₂, rfl⟩ := bind_eq h
    obtain ⟨_, _, _, _, h₃, h₄, rfl⟩ := bind_eq h₂
    obtain ⟨_, h₅, rfl⟩ := bind_pure_eq h₄
    obtain ⟨ht, rfl⟩ := Tests.of_condition h₁
    exact .if ht (.of_emitBlock block h₃) (.of_emitOrelse other h₅)
  | .while _ test block _, _, _, _, _, h => by
    obtain ⟨_, _, _, _, h₁, h₂, rfl⟩ := bind_eq h
    obtain ⟨_, h₃, rfl⟩ := bind_pure_eq h₂
    obtain ⟨ht, rfl⟩ := Tests.of_condition h₁
    exact .while ht (.of_emitBlock block h₃)
  | .for _ _ _ _ block _, _, _, _, _, h => by
    obtain ⟨_, _, _, _, h₁, h₂, rfl⟩ := bind_eq h
    obtain ⟨_, _, rfl, hr⟩ | ⟨_, rfl, rfl, rfl, hr⟩ := Ranges.of_emitRange h₁
    case inl =>
      obtain ⟨_, h₃, rfl⟩ := bind_pure_eq h₂
      exact .for hr (.of_emitBlock block h₃)
    case inr =>
      obtain ⟨rfl, rfl, rfl⟩ := pure_eq h₂
      simpa using Emits.placeholder (hr ..)
  | .break _, _, _, _, _, h => by
    obtain ⟨rfl, rfl, rfl⟩ := pure_eq h
    exact .break
  | .continue _, _, _, _, _, h => by
    obtain ⟨rfl, rfl, rfl⟩ := pure_eq h
    exact .continue
  | .pass _, _, _, _, _, h | .importModules .., _, _, _, _, h | .importFrom .., _, _, _, _, h
  | .global .., _, _, _, _, h | .nonlocal .., _, _, _, _, h => by
    obtain ⟨rfl, rfl, rfl⟩ := pure_eq h
    exact .silent (by constructor)
  | .functionDef .., _, _, _, _, h | .classDef .., _, _, _, _, h | .delete .., _, _, _, _, h
  | .with .., _, _, _, _, h | .raise .., _, _, _, _, h | .try .., _, _, _, _, h
  | .match .., _, _, _, _, h | .typeAlias .., _, _, _, _, h => by
    obtain ⟨rfl, rfl, rfl⟩ := pure_eq h
    exact .placeholder (.kind <| by constructor)

theorem EmitsBlock.of_emitBlock : (ss : List PyVerify.Stmt) → {σ τ : Scope} → {code : List Stmt} →
    {n : Notes} → emitBlock v ss σ = ⟨code, n, τ⟩ → EmitsBlock v ss σ code n τ
  | [], _, _, _, _, h => by
    obtain ⟨rfl, rfl, rfl⟩ := pure_eq h
    exact .nil
  | s :: ss, _, _, _, _, h => by
    obtain ⟨_, _, _, _, h₁, h₂, rfl⟩ := bind_eq h
    obtain ⟨_, h₃, rfl⟩ := bind_pure_eq h₂
    exact .cons (.of_emitStmt s h₁) (.of_emitBlock ss h₃)

theorem EmitsOrelse.of_emitOrelse : (ss : List PyVerify.Stmt) → {σ τ : Scope} →
    {more : List (Condition × List Stmt)} → {final : Option (List Stmt)} → {n : Notes} →
    emitOrelse v ss σ = ⟨(more, final), n, τ⟩ → EmitsOrelse v ss σ more final n τ
  | [], _, _, _, _, _, h => by
    cases h
    exact .nil
  | s :: ss, σ, τ, more, final, n, h => by
    have he : ∀ {code}, emitStmt v s σ = ⟨code, n, τ⟩ → Emits v s σ code n τ := .of_emitStmt s
    by_cases hi : ∃ z test block other, s = .if z test block other ∧ ss = []
    case pos =>
      obtain ⟨z, test, block, other, rfl, rfl⟩ := hi
      exact .of_if <| he <| emitStmt_if h
    case neg =>
      rw [emitOrelse.eq_3 _ _ _ (by simpa using hi)] at h
      obtain ⟨_, _, _, _, h₁, h₂, rfl⟩ := bind_eq h
      obtain ⟨_, h₃, h₄⟩ := bind_pure_eq h₂
      obtain ⟨rfl, rfl⟩ := Prod.mk.inj h₄
      exact .else (by simp) (by simpa using hi) (.cons (.of_emitStmt s h₁) (.of_emitBlock ss h₃))

end

end PyVerify.Code
