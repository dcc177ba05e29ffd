import Mathlib.Data.Int.Bitwise
import PyVerify.Proofs.Code.Evaluation
import PyVerify.Proofs.Tree.Part

namespace PyVerify

-- A truth value as an integer.
def truth (b : Bool) : Int :=
  if b then 1 else 0

theorem truth_ne_zero {b : Bool} : decide (truth b ≠ 0) = b := by
  cases b <;> rfl

-- What an operator makes of two integers in the source, if that is an integer.
def BinaryOp.value? (op : BinaryOp) (a b : Int) : Option Int :=
  match op with
  | add         => some (a + b)
  | sub         => some (a - b)
  | mul         => some (a * b)
  | floorDiv    => if b = 0 then none else some (a.fdiv b)
  | mod         => if b = 0 then none else some (a.fmod b)
  | shiftLeft   => if b < 0 then none else some (a * 2 ^ b.toNat)
  | shiftRight  => if b < 0 then none else some (a.fdiv (2 ^ b.toNat))
  | bitOr       => some (a.lor b)
  | bitXor      => some (a.xor b)
  | bitAnd      => some (a.land b)
  | pow | matMul | div => none

def UnaryOp.value (op : UnaryOp) (a : Int) : Int :=
  match op with
  | not     => truth (a = 0)
  | neg     => -a
  | pos     => a
  | invert  => -a - 1

-- Identity and membership do not compare integers.
def CompareOp.holds? (op : CompareOp) (a b : Int) : Option Bool :=
  match op with
  | eq    => some (a = b)
  | notEq => some (a ≠ b)
  | lt    => some (a < b)
  | le    => some (a ≤ b)
  | gt    => some (b < a)
  | ge    => some (b ≤ a)
  | is | isNot | isIn | notIn => none

-- The operands behind this one are not looked at.
def BoolOp.decides (op : BoolOp) (a : Int) : Bool :=
  match op with
  | and => a = 0
  | or  => a ≠ 0

-- The integer that an expression has as its value where the variables have these values. Calls have none, apart from
-- conversions of a value, and neither have the parts of lists and objects.

mutual

def Expr.value? (ρ : String → Int) : Expr → Option Int
  | .name _ x => some (ρ x)
  | .constant _ (.int n) => some n
  | .constant _ (.bool b) => some (truth b)
  | .binary _ left op right => do op.value? (← left.value? ρ) (← right.value? ρ)
  | .unary _ op operand => do return op.value (← operand.value? ρ)
  | .bool _ op values => junctionValue? ρ op values
  | .compare _ left links => do comparisonValue? ρ (← left.value? ρ) links
  | .conditional _ test body orelse => do
    if (← test.value? ρ) = 0 then orelse.value? ρ else body.value? ρ
  | .call _ (.name _ "int") args [] => do
    match ← argumentValues? ρ args with
    | [a] => return a
    | _   => none
  | .call _ (.name _ "bool") args [] => do
    match ← argumentValues? ρ args with
    | [a] => return truth (a ≠ 0)
    | _   => none
  | _ => none

def Expr.junctionValue? (ρ : String → Int) (op : BoolOp) : List Expr → Option Int
  | []      => none
  | e :: es => do
    let a ← e.value? ρ
    if es.isEmpty || op.decides a then return a else junctionValue? ρ op es

def Expr.comparisonValue? (ρ : String → Int) (a : Int) : List (CompareOp × Expr) → Option Int
  | []            => none
  | (op, e) :: ls => do
    let b ← e.value? ρ
    let h ← op.holds? a b
    if ls.isEmpty || !h then return truth h else comparisonValue? ρ b ls

def Expr.argumentValues? (ρ : String → Int) : List Expr → Option (List Int)
  | []      => some []
  | e :: es => do return (← e.value? ρ) :: (← argumentValues? ρ es)

end

namespace Code

-- What an operator makes of two integers in C, where integers have no bounds: division rounds towards zero.
def InfixOp.value? (op : InfixOp) (a b : Int) : Option Int :=
  match op with
  | add         => some (a + b)
  | sub         => some (a - b)
  | mul         => some (a * b)
  | div         => if b = 0 then none else some (a.tdiv b)
  | mod         => if b = 0 then none else some (a.tmod b)
  | shiftLeft   => if b < 0 then none else some (a * 2 ^ b.toNat)
  | shiftRight  => if b < 0 then none else some (a.fdiv (2 ^ b.toNat))
  | bitOr       => some (a.lor b)
  | bitXor      => some (a.xor b)
  | bitAnd      => some (a.land b)
  | eq          => some (truth (a = b))
  | notEq       => some (truth (a ≠ b))
  | lt          => some (truth (a < b))
  | le          => some (truth (a ≤ b))
  | gt          => some (truth (b < a))
  | ge          => some (truth (b ≤ a))
  | and         => some (truth (a ≠ 0 && b ≠ 0))
  | or          => some (truth (a ≠ 0 || b ≠ 0))

def SignOp.value (op : SignOp) (a : Int) : Int :=
  match op with
  | not     => truth (a = 0)
  | neg     => -a
  | pos     => a
  | invert  => -a - 1

-- The operands behind this one are not looked at.
def InfixOp.decides (op : InfixOp) (a : Int) : Bool :=
  match op with
  | and => a = 0
  | or  => a ≠ 0
  | _   => false

abbrev Store := String → Int

mutual

def Term.value? (σ : Store) : Term → Option Int
  | .ident x => some (σ x)
  | .int n => some n
  | .infix2 left op right => do op.value? (← left.value? σ) (← right.value? σ)
  | .joined op operands => joinedValue? σ op operands
  | .sign op operand => do return op.value (← operand.value? σ)
  | .paren inner => inner.value? σ
  | .conditional test body orelse => do
    if (← test.value? σ) = 0 then orelse.value? σ else body.value? σ
  | .cast .int operand => operand.value? σ
  | _ => none

-- Operands of `&&` or `||`.
def joinedValue? (σ : Store) (op : InfixOp) : List Term → Option Int
  | []      => none
  | t :: ts => do
    let a ← t.value? σ
    if ts.isEmpty || op.decides a then return truth (a ≠ 0) else joinedValue? σ op ts

end

end Code

-- A name stands in an expression.
def Expr.Mentions (e : Expr) (x : String) : Prop :=
  ∃ z, Within (.expr (.name z x)) (.expr e)

-- Where the source and C do not differ: nothing is lost when a quotient is rounded, or its operands have the same sign,
-- a junction has a truth value, and a conversion is not the name of a primitive.
def Expr.Exact (v : Code.Verifier) (ρ : String → Int) : Expr → Prop
  | .binary _ left op right => op = .floorDiv ∨ op = .mod →
    ∀ a b, left.value? ρ = some a → right.value? ρ = some b → b ∣ a ∨ 0 ≤ a * b
  | e@(.bool ..)            => ∀ a, e.value? ρ = some a → a = 0 ∨ a = 1
  | .call _ func _ _        => v.primitive? func = none
  | _                       => True

namespace Code

-- The variables of an expression have the same values in C.
def Agrees (ρ : String → Int) (σ : Store) (e : PyVerify.Expr) : Prop :=
  ∀ x, e.Mentions x → σ (identifier x) = ρ x

variable {ρ : String → Int} {σ : Store} {v : Verifier} {e x : PyVerify.Expr} {t : Term} {n : Notes} {a b k : Int}

theorem Agrees.part (h : Agrees ρ σ e) (hx : x ∈ e.children) : Agrees ρ σ x :=
  fun y ⟨z, hy⟩ => h y ⟨z, within_expr_iff.mpr <| .inr ⟨x, hx, hy⟩⟩

theorem fdiv_eq_tdiv (h : b ∣ a ∨ 0 ≤ a * b) : a.fdiv b = a.tdiv b := by
  rw [Int.fdiv_eq_tdiv]
  by_cases hd : b ∣ a
  case pos => simp [hd]
  case neg =>
    have hm := h.resolve_left hd
    have ha : a ≠ 0 := by
      rintro rfl
      exact hd (Int.dvd_zero b)
    obtain hp | hp := Int.lt_or_gt_of_ne ha
    case inl =>
      have hb : b ≤ 0 := by
        by_contra hb
        exact absurd (Int.mul_neg_of_neg_of_pos hp (Int.not_le.mp hb)) (Int.not_lt.mpr hm)
      obtain rfl | hb := Int.le_iff_eq_or_lt.mp hb
      · simp [Int.not_le.mpr hp]
      · simp [hd, Int.not_le.mpr hp, Int.not_le.mpr hb, Int.sign_eq_neg_one_of_neg hb]
    case inr =>
      have hb : 0 ≤ b := by
        by_contra hb
        exact absurd (Int.mul_neg_of_pos_of_neg hp (Int.not_le.mp hb)) (Int.not_lt.mpr hm)
      simp [Int.le_of_lt hp, hb]

theorem InfixOp.value?_eq {op : BinaryOp} {sign : InfixOp} (ho : infixOp? op = some sign) (h : op.value? a b = some k)
    (hx : op = .floorDiv ∨ op = .mod → b ∣ a ∨ 0 ≤ a * b) : sign.value? a b = some k := by
  cases op <;> cases ho
  case floorDiv =>
    simp only [BinaryOp.value?, fdiv_eq_tdiv (hx (.inl rfl))] at h
    exact h
  case mod =>
    simp only [BinaryOp.value?, Int.fmod_def, fdiv_eq_tdiv (hx (.inr rfl)), ← Int.tmod_def] at h
    exact h
  case div => cases h
  all_goals exact h

theorem compareOp_value? {op : CompareOp} {h : Bool} (ho : op.holds? a b = some h) : (compareOp op).value? a b = some (truth h) := by
  cases op <;> cases ho <;> rfl

theorem decides_boolOp {op : BoolOp} : (boolOp op).decides a = op.decides a := by
  cases op <;> rfl

theorem value?_paren : (Term.paren t).value? σ = t.value? σ := rfl

theorem value?_grouped : (grouped e t).value? σ = t.value? σ := by
  unfold grouped
  split <;> rfl

theorem value?_bare : (bare e t).value? σ = t.value? σ := by
  unfold bare
  split <;> rfl

-- A term that has the value of the expression, if there is one.
def Follows (ρ : String → Int) (σ : Store) (e : PyVerify.Expr) (t : Term) : Prop :=
  ∀ k, e.value? ρ = some k → t.value? σ = some k

theorem Follows.grouped (h : Follows ρ σ e t) : Follows ρ σ e (grouped e t) :=
  fun k hk => value?_grouped.trans (h k hk)

theorem Follows.bare (h : Follows ρ σ e t) : Follows ρ σ e (bare e t) :=
  fun k hk => value?_bare.trans (h k hk)

theorem value?_signTerm {op : UnaryOp} (h : t.value? σ = some a) : (signTerm op t).value? σ = some (op.value a) := by
  cases op <;> simp [signTerm, signOp, Term.value?, h, UnaryOp.value, SignOp.value]

theorem argumentValues?_eq {es : List PyVerify.Expr} (h : Expr.argumentValues? ρ es = some [a]) :
    ∃ e, es = [e] ∧ e.value? ρ = some a := by
  obtain _ | ⟨e, es⟩ := es
  case nil => cases h
  case cons =>
    rw [Expr.argumentValues?] at h
    obtain ⟨b, hb, h⟩ := Option.bind_eq_some_iff.mp h
    obtain ⟨bs, hs, h⟩ := Option.bind_eq_some_iff.mp h
    cases h
    cases es
    case nil => exact ⟨e, rfl, hb⟩
    case cons =>
      rw [Expr.argumentValues?] at hs
      obtain ⟨_, -, hs⟩ := Option.bind_eq_some_iff.mp hs
      obtain ⟨_, -, hs⟩ := Option.bind_eq_some_iff.mp hs
      cases hs

-- Only conversions have a value.
theorem value?_call {s z : Span} {name : String} {args : List PyVerify.Expr} (h : (PyVerify.Expr.call s (.name z name) args []).value? ρ = some k) :
    ∃ e a, args = [e] ∧ e.value? ρ = some a ∧ (name = "int" ∧ k = a ∨ name = "bool" ∧ k = truth (a ≠ 0)) := by
  unfold Expr.value? at h
  split at h
  case h_9 | h_10 =>
    obtain ⟨as, ha, h⟩ := Option.bind_eq_some_iff.mp h
    split at h
    case h_2 => cases h
    case h_1 =>
      cases h
      obtain ⟨e, rfl, he⟩ := argumentValues?_eq ha
      simp_all
  all_goals simp_all

theorem value?_link {op : CompareOp} {h : Bool} {l : Term} (hl : l.value? σ = some a) (ht : t.value? σ = some b)
    (ho : op.holds? a b = some h) : (Term.infix2 l (compareOp op) t).value? σ = some (truth h) := by
  simp only [Term.value?, hl, ht, Option.bind_eq_bind, Option.bind_some, compareOp_value? ho]

theorem joinedValue?_eq {op : BoolOp} {es : List PyVerify.Expr} {ts : List Term} (h : List.Forall₂ (Follows ρ σ) es ts)
    (hk : Expr.junctionValue? ρ op es = some k) :
    joinedValue? σ (boolOp op) ((es.zipWith grouped ts).map .paren) = some (truth (k ≠ 0)) := by
  induction h generalizing k
  case nil => cases hk
  case cons e t es ts ht hs hi =>
    rw [Expr.junctionValue?] at hk
    obtain ⟨a, ha, hk⟩ := Option.bind_eq_some_iff.mp hk
    have he : ((es.zipWith grouped ts).map Term.paren).isEmpty = es.isEmpty := by
      cases hs <;> rfl
    simp only [List.zipWith_cons_cons, List.map_cons, joinedValue?, value?_paren, value?_grouped, ht a ha, he, decides_boolOp,
      Option.bind_eq_bind, Option.bind_some]
    split at hk
    case isTrue hd =>
      cases hk
      rw [if_pos hd]
      rfl
    case isFalse hd => rw [if_neg hd, hi hk]

theorem comparedValue?_eq {links : List (CompareOp × PyVerify.Expr)} {ts : List Term} {l : Term}
    (h : List.Forall₂ (Follows ρ σ) (links.map Prod.snd) ts) (hl : l.value? σ = some a)
    (hk : Expr.comparisonValue? ρ a links = some k) :
    joinedValue? σ .and ((linkTerms l (linked links ts)).map .paren) = some k := by
  induction links generalizing ts l a
  case nil => cases hk
  case cons link links hi =>
    obtain ⟨op, e⟩ := link
    obtain ⟨t, ts, ht, hs, rfl⟩ := List.forall₂_cons_left_iff.mp h
    rw [Expr.comparisonValue?] at hk
    obtain ⟨b, hb, hk⟩ := Option.bind_eq_some_iff.mp hk
    obtain ⟨c, hc, hk⟩ := Option.bind_eq_some_iff.mp hk
    have ht : (grouped e t).value? σ = some b := value?_grouped.trans (ht b hb)
    have he : ((linkTerms (grouped e t) (linked links ts)).map Term.paren).isEmpty = links.isEmpty := by
      cases links <;> (cases hs; rfl)
    have hd : InfixOp.decides .and (truth c) = !c := by cases c <;> rfl
    change (do
      let a ← (Term.infix2 l (compareOp op) (grouped e t)).value? σ
      if ((linkTerms (grouped e t) (linked links ts)).map Term.paren).isEmpty || InfixOp.decides .and a then return truth (a ≠ 0)
      else joinedValue? σ .and ((linkTerms (grouped e t) (linked links ts)).map .paren)) = some k
    simp only [value?_link hl ht hc, Option.bind_eq_bind, Option.bind_some, he, hd]
    split at hk
    case isTrue hn =>
      cases hk
      rw [if_pos hn, truth_ne_zero]
      rfl
    case isFalse hn => rw [if_neg hn, hi hs ht hk]

theorem value?_chain {links : List (CompareOp × PyVerify.Expr)} {ts : List Term} {l : Term}
    (h : List.Forall₂ (Follows ρ σ) (links.map Prod.snd) ts) (hl : l.value? σ = some a)
    (hk : Expr.comparisonValue? ρ a links = some k) : (chain l (linked links ts)).value? σ = some k := by
  obtain hc | hc := chain_cases l (linked links ts)
  case inr => rw [hc, value?_paren, Term.value?, comparedValue?_eq h hl hk]
  case inl =>
    obtain _ | ⟨⟨op, e⟩, _ | ⟨_, _⟩⟩ := links
    case nil => cases hk
    case cons.nil =>
      obtain ⟨t, ts, ht, hs, rfl⟩ := List.forall₂_cons_left_iff.mp h
      rw [Expr.comparisonValue?] at hk
      obtain ⟨b, hb, hk⟩ := Option.bind_eq_some_iff.mp hk
      obtain ⟨c, hc, hk⟩ := Option.bind_eq_some_iff.mp hk
      cases hk
      exact value?_link hl (ht.grouped b hb) hc
    case cons.cons =>
      obtain ⟨t, ts, -, hs, rfl⟩ := List.forall₂_cons_left_iff.mp h
      obtain ⟨t', ts, -, hs, rfl⟩ := List.forall₂_cons_left_iff.mp hs
      simp [linked, linkTerms] at hc

theorem Lowers.value?_eq (e : PyVerify.Expr) {t : Term} {n : Notes} (h : Lowers v e t n) (hm : Agrees ρ σ e)
    (hx : e.Every (Expr.Exact v ρ)) : Follows ρ σ e t := by
  have hc : ∀ x ∈ e.children, ∀ {u m}, Lowers v x u m → Follows ρ σ x u := by
    intro x hy u m hu
    have := Expr.sizeOf_lt_of_mem_children hy
    exact Lowers.value?_eq x hu (hm.part hy) (hx.part hy)
  have hs : ∀ {es us m}, (∀ x ∈ es, x ∈ e.children) → LowersAll v es us m → List.Forall₂ (Follows ρ σ) es us := by
    intro es us m he hu
    induction es generalizing us m <;> cases hu
    case nil => exact .nil
    case cons hi _ _ _ _ hu hus =>
      obtain ⟨hx, he⟩ := List.forall_mem_cons.mp he
      exact .cons (hc _ hx hu) (hi he hus)
  intro k hk
  cases h
  case name => exact hk.symm ▸ congrArg some (hm _ ⟨_, .refl⟩)
  case int => exact hk
  case truth b => cases b <;> exact hk
  case float | str | none | attr | subscript => cases hk
  case binary ho hl hr =>
    obtain ⟨a, ha, hk⟩ := Option.bind_eq_some_iff.mp hk
    obtain ⟨b, hb, hk⟩ := Option.bind_eq_some_iff.mp hk
    have hl := (hc _ (by simp [Expr.children]) hl).grouped a ha
    have hr := (hc _ (by simp [Expr.children]) hr).grouped b hb
    simp only [Term.value?, hl, hr, Option.bind_eq_bind, Option.bind_some]
    exact InfixOp.value?_eq ho hk fun hd => hx.self hd a b ha hb
  case unary h =>
    obtain ⟨a, ha, hk⟩ := Option.bind_eq_some_iff.mp hk
    cases hk
    exact value?_signTerm <| (hc _ (by simp [Expr.children]) h).grouped a ha
  case junction h =>
    have hj := joinedValue?_eq (hs (by simp [Expr.children]) h) hk
    obtain rfl | rfl := hx.self k hk <;> exact hj
  case compare hl h =>
    obtain ⟨a, ha, hk⟩ := Option.bind_eq_some_iff.mp hk
    exact value?_chain (hs (fun _ => List.mem_cons_of_mem _) h) ((hc _ (by simp [Expr.children]) hl).grouped a ha) hk
  case conditional ht hb ho =>
    obtain ⟨a, ha, hk⟩ := Option.bind_eq_some_iff.mp hk
    have ht := (hc _ (by simp [Expr.children]) ht).grouped a ha
    simp only [Term.value?, ht, Option.bind_eq_bind, Option.bind_some]
    split at hk
    case isTrue hz =>
      rw [if_pos hz]
      exact (hc _ (by simp [Expr.children]) ho).grouped k hk
    case isFalse hz =>
      rw [if_neg hz]
      exact (hc _ (by simp [Expr.children]) hb).grouped k hk
  case assume hp _ | nondet hp _ _ =>
    have hn : v.primitive? _ = Option.none := hx.self
    rw [hn] at hp
    cases hp
  case call h =>
    obtain ⟨e, a, rfl, ha, hn⟩ := value?_call hk
    obtain ⟨u, us, hu, hs, rfl⟩ := List.forall₂_cons_left_iff.mp <| hs (fun _ => List.mem_cons_of_mem _) h
    cases hs
    have hb := hu.bare a ha
    obtain ⟨rfl, rfl⟩ | ⟨rfl, rfl⟩ := hn
    case inl => exact hb
    case inr =>
      change (Term.infix2 (.paren (bare e u)) .notEq (.int 0)).value? σ = _
      simp [Term.value?, hb, InfixOp.value?]
termination_by sizeOf e

end Code
end PyVerify
