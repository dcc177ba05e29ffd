import PyVerify.Code.Print
import PyVerify.Proofs.Code.Emission
import PyVerify.Proofs.Code.Value

namespace PyVerify

-- A value in front of the bound, for steps in this direction.
def Before (s b k : Int) : Prop :=
  0 < s ∧ k < b ∨ s < 0 ∧ b < k

-- The values of a range with these bounds and this step, which is not zero.
def IsRange (a b s : Int) (vs : List Int) : Prop :=
  ∀ (i : Nat) k, vs[i]? = some k ↔ k = a + s * i ∧ Before s b k

-- The start, the stop and the step that the arguments of a range have as their values.
def rangeBounds? (ρ : String → Int) : List Expr → Option (Int × Int × Int)
  | [stop]              => do return (0, ← stop.value? ρ, 1)
  | [start, stop]       => do return (← start.value? ρ, ← stop.value? ρ, 1)
  | [start, stop, step] => do return (← start.value? ρ, ← stop.value? ρ, ← step.value? ρ)
  | _                   => none

section

variable {a b s k : Int} {vs : List Int}

theorem isRange_nil : IsRange a b s [] ↔ ¬Before s b a := by
  refine ⟨fun h hb => ?_, fun h i k => ?_⟩
  case refine_1 => cases (h 0 a).mpr ⟨by simp, hb⟩
  case refine_2 =>
    suffices hk : k = a + s * i → ¬Before s b k by simpa using hk
    rintro rfl (⟨hs, hk⟩ | ⟨hs, hk⟩)
    case inl =>
      have := Int.mul_nonneg (Int.le_of_lt hs) (Int.natCast_nonneg i)
      exact h <| .inl ⟨hs, by omega⟩
    case inr =>
      have := Int.mul_nonpos_of_nonpos_of_nonneg (Int.le_of_lt hs) (Int.natCast_nonneg i)
      exact h <| .inr ⟨hs, by omega⟩

theorem isRange_cons : IsRange a b s (k :: vs) ↔ k = a ∧ Before s b a ∧ IsRange (a + s) b s vs := by
  have hi : ∀ i : Nat, a + s * (i + 1 : Nat) = a + s + s * i := by
    intro i
    rw [Int.natCast_succ, Int.mul_add, Int.mul_one]
    omega
  refine ⟨fun h => ?_, ?_⟩
  case refine_1 =>
    obtain ⟨hk, hb⟩ := (h 0 k).mp rfl
    obtain rfl : k = a := by simpa using hk
    exact ⟨rfl, hb, fun i j => hi i ▸ h (i + 1) j⟩
  case refine_2 =>
    rintro ⟨rfl, hb, h⟩ (_ | i) j
    case zero =>
      simp only [List.getElem?_cons_zero, Option.some.injEq, Nat.cast_zero, Int.mul_zero, Int.add_zero]
      exact ⟨fun hj => ⟨hj.symm, hj ▸ hb⟩, fun hj => hj.left.symm⟩
    case succ => exact hi i ▸ h i j

-- The distance to the bound shrinks with each step.
theorem exists_isRange : ∃ vs, IsRange a b s vs := by
  induction hn : (if s < 0 then a - b else b - a).toNat using Nat.strong_induction_on generalizing a
  case h n hi =>
    by_cases hb : Before s b a
    case neg => exact ⟨[], isRange_nil.mpr hb⟩
    case pos =>
      have hl : (if s < 0 then a + s - b else b - (a + s)).toNat < n := by
        unfold Before at hb
        split at hn <;> split <;> omega
      obtain ⟨vs, hv⟩ := hi _ hl rfl
      exact ⟨a :: vs, isRange_cons.mpr ⟨rfl, hb, hv⟩⟩

end

namespace Code

def Store.set (σ : Store) (x : String) (k : Int) : Store :=
  Function.update σ x k

namespace RangeHeader

-- The comparison in a header.
def test (h : RangeHeader) : Term :=
  .infix2 (.ident h.counter) (if h.descending then .gt else .lt) h.stop

-- The addition to the counter behind each round, as it is written.
def advance (h : RangeHeader) : String :=
  match h.step with
  | none      => s!"{h.counter}++"
  | some step => s!"{h.counter} += {step.text}"

-- What is added.
def stride? (h : RangeHeader) (σ : Store) : Option Int :=
  match h.step with
  | none      => some 1
  | some step => step.value? σ

def Ahead (h : RangeHeader) (b k : Int) : Prop :=
  if h.descending then b < k else k < b

instance {h : RangeHeader} {b k : Int} : Decidable (h.Ahead b k) :=
  inferInstanceAs (Decidable (if h.descending then b < k else k < b))

-- The rounds of a loop: its body runs for these values of the counter, each time from one store to the next.
inductive Rounds (h : RangeHeader) (round : Store → Store → Prop) : Store → List Int → Prop
  | done (ht : h.test.value? σ = some 0) : Rounds h round σ []
  | next (ht : h.test.value? σ = some c) (hc : c ≠ 0) (hr : round σ τ) (hs : h.stride? τ = some s)
      (hn : Rounds h round (τ.set h.counter (τ h.counter + s)) vs) : Rounds h round σ (σ h.counter :: vs)

-- The whole loop: the counter is set to the start in front of the first round.
def Visits (h : RangeHeader) (round : Store → Store → Prop) (σ : Store) (vs : List Int) : Prop :=
  ∃ a, h.start.value? σ = some a ∧ h.Rounds round (σ.set h.counter a) vs

-- What stays as it is from round to round fixes the bound and the step, and the body comes to its end there.
structure Steady (h : RangeHeader) (round : Store → Store → Prop) (kept : Store → Prop) (b s : Int) : Prop where
  stop    : kept σ → h.stop.value? σ = some b
  stride  : kept σ → h.stride? σ = some s
  ends    : kept σ → ∃ τ, round σ τ
  counter : kept σ → round σ τ → τ h.counter = σ h.counter
  round   : kept σ → round σ τ → kept τ
  set     : kept σ → kept (σ.set h.counter k)

variable {h : RangeHeader} {round : Store → Store → Prop} {kept : Store → Prop} {σ : Store} {a b s k : Int} {vs : List Int}

theorem text_test : h.test.text = h.counter ++ " " ++ (if h.descending then ">" else "<") ++ " " ++ h.stop.text := by
  rw [test, Term.text, Term.text]
  cases h.descending <;> rfl

theorem text_eq : h.text = s!"for ({h.counter} = {h.start.text}; {h.test.text}; {h.advance}) \x7b" := by
  have hs : ∀ x : String, toString x = x := fun _ => rfl
  rw [text_test]
  unfold text advance
  cases h.step <;> simp only [hs, String.append_assoc]

theorem test_value? (hb : h.stop.value? σ = some b) : h.test.value? σ = some (truth (h.Ahead b (σ h.counter))) := by
  unfold test
  by_cases hd : h.descending <;> simp [Term.value?, hb, InfixOp.value?, Ahead, hd]

namespace Steady

theorem rounds_nil (p : h.Steady round kept b s) (hk : kept σ) : h.Rounds round σ [] ↔ ¬h.Ahead b (σ h.counter) := by
  have ht := test_value? (p.stop hk)
  refine ⟨fun hr hb => ?_, fun hb => .done ?_⟩
  case refine_1 =>
    obtain ⟨h₀⟩ := hr
    simp [ht, hb, truth] at h₀
  case refine_2 => simp [ht, hb, truth]

theorem rounds_cons (p : h.Steady round kept b s) (hk : kept σ) :
    h.Rounds round σ (k :: vs) ↔ k = σ h.counter ∧ h.Ahead b (σ h.counter) ∧
      ∃ τ, round σ τ ∧ h.Rounds round (τ.set h.counter (σ h.counter + s)) vs := by
  have ht := test_value? (p.stop hk)
  refine ⟨fun hr => ?_, ?_⟩
  case refine_1 =>
    obtain _ | ⟨h₁, hc, hr, hs, hn⟩ := hr
    rw [p.counter hk hr] at hn
    obtain rfl := Option.some.inj <| (p.stride <| p.round hk hr).symm.trans hs
    refine ⟨rfl, by_contra fun hb => hc ?_, _, hr, hn⟩
    simpa [ht, hb, truth] using h₁.symm
  case refine_2 =>
    rintro ⟨rfl, hb, τ, hr, hn⟩
    refine .next ht ?_ hr (p.stride <| p.round hk hr) (p.counter hk hr ▸ hn)
    simp [hb, truth]

-- The body runs for the values of the range.
theorem rounds_iff (p : h.Steady round kept b s) (hd : s ≠ 0 ∧ (s < 0 ↔ h.descending)) (hk : kept σ) :
    h.Rounds round σ vs ↔ IsRange (σ h.counter) b s vs := by
  have hb : ∀ k, h.Ahead b k ↔ Before s b k := by
    intro k
    unfold Ahead Before
    split <;> simp_all <;> omega
  induction vs generalizing σ
  case nil => rw [p.rounds_nil hk, isRange_nil, hb]
  case cons k vs hi =>
    have hn : ∀ {τ}, round σ τ →
        (h.Rounds round (τ.set h.counter (σ h.counter + s)) vs ↔ IsRange (σ h.counter + s) b s vs) := by
      intro τ hr
      simpa [Store.set] using hi (p.set (p.round hk hr))
    rw [p.rounds_cons hk, isRange_cons, hb]
    refine and_congr_right fun _ => and_congr_right fun _ => ⟨?_, fun hv => ?_⟩
    case refine_1 =>
      rintro ⟨τ, hr, hv⟩
      exact (hn hr).mp hv
    case refine_2 =>
      obtain ⟨τ, hr⟩ := p.ends hk
      exact ⟨τ, hr, (hn hr).mpr hv⟩

theorem rounds_iff_of_eq (p : h.Steady round kept b s) (hk : kept σ) (hb : σ h.counter = b) :
    h.Rounds round σ vs ↔ IsRange (σ h.counter) b s vs := by
  have ha : ¬h.Ahead b b := by simp [Ahead]
  have hn : ¬Before s b b := by simp [Before]
  cases vs
  case nil => simp [p.rounds_nil hk, isRange_nil, hb, ha, hn]
  case cons => simp [p.rounds_cons hk, isRange_cons, hb, ha, hn]

-- The comparison goes the other way: a first value that passes it is followed by others that pass it as well.
theorem rounds_iff_of_opposite (p : h.Steady round kept b s) (hd : s ≠ 0 ∧ ¬(s < 0 ↔ h.descending)) (hk : kept σ) :
    h.Rounds round σ vs ↔ vs = [] ∧ ¬h.Ahead b (σ h.counter) := by
  have ha : ∀ k, h.Ahead b k → h.Ahead b (k + s) := by
    intro k
    unfold Ahead
    split <;> simp_all <;> omega
  induction vs generalizing σ
  case nil => simp [p.rounds_nil hk]
  case cons k vs hi =>
    refine iff_of_false (fun hv => ?_) (by simp)
    obtain ⟨-, hb, τ, hr, hv⟩ := (p.rounds_cons hk).mp hv
    have hn := ((hi <| p.set (p.round hk hr)).mp hv).right
    exact hn <| by simpa [Store.set] using ha _ hb

-- An empty loop stands for a range that is not empty, and one without end for a range that is.
theorem rounds_iff_of_ne (p : h.Steady round kept b s) (hd : s ≠ 0 ∧ ¬(s < 0 ↔ h.descending)) (hn : σ h.counter ≠ b) (hk : kept σ) :
    h.Rounds round σ vs ↔ vs = [] ∧ ¬IsRange (σ h.counter) b s [] := by
  rw [p.rounds_iff_of_opposite hd hk, isRange_nil, not_not]
  refine and_congr_right fun _ => ?_
  unfold Ahead Before
  split <;> simp_all <;> omega

end Steady
end RangeHeader

-- The arguments that a header reads in each round.
def repeated : List PyVerify.Expr → List PyVerify.Expr
  | _ :: e :: es  => e :: es
  | es            => es

-- A body that comes to its end, and assigns neither the counter nor a variable in these arguments.
structure Spares (round : Store → Store → Prop) (y : String) (args : List PyVerify.Expr) : Prop where
  ends    : ∃ τ, round σ τ
  counter : round σ τ → τ (identifier y) = σ (identifier y)
  args    : round σ τ → e ∈ args → e.Mentions x → τ (identifier x) = σ (identifier x)

-- A term has the value of the expression wherever their variables agree.
def Means (ρ : String → Int) (e : PyVerify.Expr) (t : Term) : Prop :=
  ∀ σ, Agrees ρ σ e → Follows ρ σ e t

-- A header for a range with these arguments: what it reads has their values wherever the variables agree.
structure RangeHeader.Follows (header : RangeHeader) (ρ : String → Int) (y : String) (args : List PyVerify.Expr) (a b s : Int) : Prop where
  counter     : header.counter = identifier y
  descending  : header.descending = (args[2]?).any isNegated
  start       : (∀ e ∈ args, Agrees ρ σ e) → header.start.value? σ = some a
  stop        : (∀ e ∈ repeated args, Agrees ρ σ e) → header.stop.value? σ = some b
  stride      : (∀ e ∈ repeated args, Agrees ρ σ e) → header.stride? σ = some s

-- The sign in front of the step tells the direction, or there is nothing to count.
def Foretells (args : List PyVerify.Expr) (a b s : Int) : Prop :=
  a = b ∨ (s < 0 ↔ (args[2]?).any isNegated)

variable {v : Verifier} {ρ : String → Int} {σ : Store} {header : RangeHeader} {args : List PyVerify.Expr} {ts : List Term}
  {n : Notes} {y : String} {a b s : Int} {round : Store → Store → Prop}

theorem LowersAll.means (h : LowersAll v args ts n) (hx : ∀ e ∈ args, e.Every (Expr.Exact v ρ)) :
    List.Forall₂ (Means ρ) args (args.zipWith grouped ts) := by
  induction args generalizing ts n <;> cases h
  case nil => exact .nil
  case cons hi _ _ _ _ ht hs =>
    obtain ⟨hx, hxs⟩ := List.forall_mem_cons.mp hx
    exact .cons (fun _ hm => (ht.value?_eq _ hm hx).grouped) (hi hs hxs)

theorem follows_of_rangeHeader? (hh : rangeHeader? (identifier y) args ts = some header) (hl : List.Forall₂ (Means ρ) args ts)
    (hr : rangeBounds? ρ args = some (a, b, s)) : header.Follows ρ y args a b s := by
  match args, ts, hl with
  | [], _, _ | _ :: _ :: _ :: _ :: _, _, _ => cases hr
  | [stop], [_], .cons ht .nil =>
    cases hh
    obtain ⟨_, hb, hr⟩ := Option.bind_eq_some_iff.mp hr
    cases hr
    exact ⟨rfl, rfl, fun _ => rfl, fun hm => ht _ (hm _ (by simp [repeated])) _ hb, fun _ => rfl⟩
  | [start, stop], [_, _], .cons hf (.cons ht .nil) =>
    cases hh
    obtain ⟨_, ha, hr⟩ := Option.bind_eq_some_iff.mp hr
    obtain ⟨_, hb, hr⟩ := Option.bind_eq_some_iff.mp hr
    cases hr
    exact ⟨rfl, rfl, fun hm => hf _ (hm _ (by simp)) _ ha, fun hm => ht _ (hm _ (by simp [repeated])) _ hb, fun _ => rfl⟩
  | [start, stop, step], [_, _, _], .cons hf (.cons ht (.cons hp .nil)) =>
    cases hh
    obtain ⟨_, ha, hr⟩ := Option.bind_eq_some_iff.mp hr
    obtain ⟨_, hb, hr⟩ := Option.bind_eq_some_iff.mp hr
    obtain ⟨_, hs, hr⟩ := Option.bind_eq_some_iff.mp hr
    cases hr
    exact ⟨rfl, rfl, fun hm => hf _ (hm _ (by simp)) _ ha, fun hm => ht _ (hm _ (by simp [repeated])) _ hb,
      fun hm => hp _ (hm _ (by simp [repeated])) _ hs⟩

-- The variables that the header reads in each round keep the values they have in front of the loop.
theorem RangeHeader.Follows.steady (p : header.Follows ρ y args a b s) (hr : Spares round y (repeated args))
    (hy : ∀ e ∈ repeated args, ∀ x, e.Mentions x → identifier x ≠ identifier y) :
    header.Steady round (fun σ => ∀ e ∈ repeated args, Agrees ρ σ e) b s where
  stop    := p.stop
  stride  := p.stride
  ends _  := hr.ends
  counter _ h := p.counter ▸ hr.counter h
  round hm h e he x hx := (hr.args h he hx).trans (hm e he x hx)
  set hm e he x hx := by
    rw [p.counter, Store.set, Function.update_of_ne (hy e he x hx), hm e he x hx]

theorem mem_of_mem_repeated {e : PyVerify.Expr} (h : e ∈ repeated args) : e ∈ args := by
  unfold repeated at h
  split at h
  case h_1 => exact List.mem_cons_of_mem _ h
  case h_2 => exact h

theorem RangeHeader.Follows.visits_iff (p : header.Follows ρ y args a b s) (hr : Spares round y (repeated args))
    (hy : ∀ e ∈ repeated args, ∀ x, e.Mentions x → identifier x ≠ identifier y) (hm : ∀ e ∈ args, Agrees ρ σ e) (hs : s ≠ 0) :
    (Foretells args a b s → ∀ vs, header.Visits round σ vs ↔ IsRange a b s vs) ∧
      (¬Foretells args a b s → ∀ vs, header.Visits round σ vs ↔ vs = [] ∧ ¬IsRange a b s []) := by
  have hp := p.steady hr hy
  have hk : ∀ e ∈ repeated args, Agrees ρ (σ.set header.counter a) e :=
    hp.set fun e he => hm e (mem_of_mem_repeated he)
  have hc : σ.set header.counter a header.counter = a := by simp [Store.set]
  have hv : ∀ vs, header.Visits round σ vs ↔ header.Rounds round (σ.set header.counter a) vs := by
    simp [Visits, p.start hm]
  rw [Foretells, ← p.descending]
  refine ⟨?_, fun hn vs => ?_⟩
  case refine_1 =>
    rintro (hb | hd) vs
    case inl => rw [hv, hp.rounds_iff_of_eq hk (hc.trans hb), hc]
    case inr => rw [hv, hp.rounds_iff ⟨hs, hd⟩ hk, hc]
  case refine_2 =>
    obtain ⟨hb, hd⟩ := not_or.mp hn
    rw [hv, hp.rounds_iff_of_ne ⟨hs, hd⟩ (hc.trans_ne hb) hk, hc]

-- The header of a loop that is emitted comes from the arguments of its range.
theorem Emits.of_range {z z' : Span} {isAsync : Bool} {iter : PyVerify.Expr} {block other : List PyVerify.Stmt} {τ τ' : Scope}
    {lines code : List Stmt} (hi : rangeArgs? iter = some args) (h : Emits v (.for z isAsync (.name z' y) iter block other) τ lines n τ')
    (hc : .forRange header code ∈ lines) :
    ∃ ts n, LowersAll v args ts n ∧ rangeHeader? (identifier y) args (args.zipWith grouped ts) = some header := by
  cases h
  case silent h => cases h
  case placeholder => simp at hc
  case «for» hr hb =>
    obtain ⟨ha, hl, hh, hd⟩ := hr
    obtain rfl := Option.some.inj <| hi.symm.trans ha
    suffices hc : header = _ from ⟨_, _, hl, hc ▸ hh⟩
    cases hd <;> simp_all [loopElse]

-- The header of a loop runs the body for the values of its range exactly if the syntax of the step foretells the direction.
-- Otherwise an empty loop stands for a range that is not empty, and a loop without end for one that is.
theorem range_loop_visits {z z' : Span} {isAsync : Bool} {iter : PyVerify.Expr} {block other : List PyVerify.Stmt} {scope : Scope}
    {code : List Stmt} (hi : rangeArgs? iter = some args)
    (hc : .forRange header code ∈ (emitStmt v (.for z isAsync (.name z' y) iter block other) scope).value)
    (hb : rangeBounds? ρ args = some (a, b, s)) (hs : s ≠ 0)
    (hm : ∀ e ∈ args, Agrees ρ σ e ∧ e.Every (Expr.Exact v ρ))
    (hy : ∀ e ∈ repeated args, ∀ x, e.Mentions x → identifier x ≠ identifier y) (hr : Spares round y (repeated args)) :
    (∃ vs, IsRange a b s vs) ∧
      (Foretells args a b s → ∀ vs, header.Visits round σ vs ↔ IsRange a b s vs) ∧
      (¬Foretells args a b s → ∀ vs, header.Visits round σ vs ↔ vs = [] ∧ ¬IsRange a b s []) := by
  obtain ⟨ts, n, hl, hh⟩ := (Emits.of_emitStmt _ rfl).of_range hi hc
  have p := follows_of_rangeHeader? hh (hl.means fun e he => (hm e he).right) hb
  exact ⟨exists_isRange, p.visits_iff hr hy (fun e he => (hm e he).left) hs⟩

-- The arguments of `range(n, 0, -2)`, and the loop `for i in range(n, 0, -2): total += i`.
def everyOther : List PyVerify.Expr := [
  .name ⟨15, 1⟩ "n", .constant ⟨18, 1⟩ (.int 0), .unary ⟨21, 2⟩ .neg (.constant ⟨22, 1⟩ (.int 2))]

def summing : PyVerify.Stmt :=
  .for ⟨0, 41⟩ false (.name ⟨4, 1⟩ "i") (.call ⟨9, 15⟩ (.name ⟨9, 5⟩ "range") everyOther [])
    [.augAssign ⟨30, 10⟩ (.name ⟨30, 5⟩ "total") .add (.name ⟨39, 1⟩ "i")] []

def addsTotal (σ τ : Store) : Prop :=
  τ = σ.set "total" (σ "total" + σ "i")

theorem summing_visits :
    ∃ header code, .forRange header code ∈ (emitStmt .none summing ["n", "total"]).value ∧
      header.Visits addsTotal (fun _ => 5) [5, 3, 1] := by
  have hm : ∀ e ∈ repeated everyOther, ∀ x, ¬e.Mentions x := by
    rintro e he x ⟨z, hw⟩
    obtain rfl | rfl : e = .constant ⟨18, 1⟩ (.int 0) ∨ e = .unary ⟨21, 2⟩ .neg (.constant ⟨22, 1⟩ (.int 2)) := by
      simpa [everyOther, repeated] using he
    case inl => cases (within_leaf_iff rfl).mp hw
    case inr =>
      obtain he | ⟨c, hc, hw⟩ := within_expr_iff.mp hw
      · cases he
      · obtain rfl := List.mem_singleton.mp hc
        cases (within_leaf_iff rfl).mp hw
  have hx : ∀ e ∈ everyOther, Agrees (fun _ => 5) (fun _ => 5) e ∧ e.Every (Expr.Exact .none fun _ => 5) := by
    refine fun e he => ⟨fun _ _ => rfl, ?_⟩
    have hc : ∀ z k, (PyVerify.Expr.constant z k).Every (Expr.Exact .none fun _ => 5) :=
      fun _ _ => (Expr.every_leaf_iff rfl).mpr trivial
    obtain rfl | rfl | rfl : e = .name ⟨15, 1⟩ "n" ∨ e = .constant ⟨18, 1⟩ (.int 0) ∨
        e = .unary ⟨21, 2⟩ .neg (.constant ⟨22, 1⟩ (.int 2)) := by
      simpa [everyOther] using he
    case inl => exact (Expr.every_leaf_iff rfl).mpr trivial
    case inr.inl => exact hc _ _
    case inr.inr => exact Expr.every_iff.mpr ⟨trivial, fun x hx => List.mem_singleton.mp hx ▸ hc _ _⟩
  have hr : Spares addsTotal "i" (repeated everyOther) := by
    refine ⟨⟨_, rfl⟩, ?_, fun _ he hx => absurd hx (hm _ he _)⟩
    rintro σ τ rfl
    rfl
  have he : (emitStmt .none summing ["n", "total"]).value = [.declare .int "i" none, .forRange
      ⟨"i", .ident "n", .int 0, some (.paren (.sign .neg (.int 2))), true⟩ [.augment (.ident "total") .add (.ident "i")]] := rfl
  have hc := he ▸ List.mem_cons_of_mem _ (List.mem_singleton.mpr rfl)
  have hv := (range_loop_visits rfl hc rfl (by decide) hx (fun e he x hx => absurd hx (hm e he x)) hr).right.left (.inr (by decide))
  exact ⟨_, _, hc, (hv _).mpr <| by simp [isRange_cons, isRange_nil, Before, UnaryOp.value]⟩

-- The arguments of `range(3, 0, 0 - 1)`, and the loop `for i in range(3, 0, 0 - 1): x = i`.
def byDifference : List PyVerify.Expr := [
  .constant ⟨15, 1⟩ (.int 3), .constant ⟨18, 1⟩ (.int 0),
  .binary ⟨21, 5⟩ (.constant ⟨21, 1⟩ (.int 0)) .sub (.constant ⟨25, 1⟩ (.int 1))]

def falling : PyVerify.Stmt :=
  .for ⟨0, 39⟩ false (.name ⟨4, 1⟩ "i") (.call ⟨9, 18⟩ (.name ⟨9, 5⟩ "range") byDifference [])
    [.assign ⟨33, 5⟩ [.name ⟨33, 1⟩ "x"] (.name ⟨37, 1⟩ "i")] []

def copiesCounter (σ τ : Store) : Prop :=
  τ = σ.set "x" (σ "i")

theorem falling_not_visited :
    ∃ header code, .forRange header code ∈ (emitStmt .none falling ["x"]).value ∧
      rangeBounds? (fun _ => 0) byDifference = some (3, 0, -1) ∧ IsRange 3 0 (-1) [3, 2, 1] ∧
      header.Visits copiesCounter (fun _ => 0) [] ∧ ¬header.Visits copiesCounter (fun _ => 0) [3, 2, 1] := by
  have he : (emitStmt .none falling ["x"]).value = [.declare .int "i" none, .forRange
      ⟨"i", .int 3, .int 0, some (.paren (.infix2 (.int 0) .sub (.int 1))), false⟩ [.assign (.ident "x") (.ident "i")]] := rfl
  have hc := he ▸ List.mem_cons_of_mem _ (List.mem_singleton.mpr rfl)
  refine ⟨_, _, hc, rfl, by simp [isRange_cons, isRange_nil, Before], ⟨3, rfl, .done rfl⟩, ?_⟩
  rintro ⟨a, ha, hv⟩
  cases ha
  obtain _ | ⟨ht, hn, -⟩ := hv
  cases ht
  exact hn rfl

end Code
end PyVerify
