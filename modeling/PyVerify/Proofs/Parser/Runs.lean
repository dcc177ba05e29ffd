import PyVerify.Parser.Cursor

namespace PyVerify

open Token (Kind Mark)

-- The tokens ahead are of these kinds.
structure Cursor.Ahead (c : Cursor) (ks : List Kind) : Prop where
  kinds   : c.rest.map Token.kind = ks
  bounded : c.rest.length ≤ c.size

namespace Cursor.Ahead

variable {c : Cursor} {k : Kind} {ks : List Kind}

theorem kind? (h : c.Ahead ks) : c.kind? = ks.head? := by
  simp [Cursor.kind?, ← h.kinds]

theorem kind?_ne {l : Kind} (h : c.Ahead (k :: ks)) (hk : k ≠ l) : c.kind? ≠ some l :=
  h.kind? ▸ fun hl => hk (Option.some.inj hl)

theorem secondKind? (h : c.Ahead ks) : c.secondKind? = ks[1]? := by
  simp [Cursor.secondKind?, ← h.kinds]

theorem length (h : c.Ahead ks) : c.rest.length = ks.length := by
  simp [← h.kinds]

end Cursor.Ahead

namespace Parser

-- A parser that is repeated takes tokens each time.
inductive Steps {α : Type} (step : Parser (Option α)) : Cursor → List α → Cursor → Prop
  | nil : Steps step c [] c
  | cons (h : step c = .ok (some a, d)) (hl : d.rest.length < c.rest.length) (hs : Steps step d as e) :
    Steps step c (a :: as) e

variable {α β : Type} {c d e : Cursor} {Q S : α → Cursor → Prop} {R : β → Cursor → Prop} {p q : Parser α}
variable {kind : Kind} {ks : List Kind}

-- A parser comes to an end; what it gives and where it ends are related.
def Runs (c : Cursor) (Q : α → Cursor → Prop) (p : Parser α) : Prop :=
  ∃ a d, p c = .ok (a, d) ∧ Q a d

namespace Runs

theorem pure {a : α} (h : Q a c) : Runs c Q (Pure.pure a) :=
  ⟨a, c, rfl, h⟩

theorem bind {k : α → Parser β} (hp : Runs c Q p) (hk : ∀ a d, Q a d → Runs d R (k a)) : Runs c R (p >>= k) := by
  obtain ⟨a, d, hp, ha⟩ := hp
  obtain ⟨b, e, hk, hb⟩ := hk a d ha
  refine ⟨b, e, ?_, hb⟩
  change (p c >>= fun (a, d) => k a d) = _
  rw [hp]
  exact hk

theorem mono (h : Runs c Q p) (hi : ∀ a d, Q a d → S a d) : Runs c S p := by
  obtain ⟨a, d, hp, ha⟩ := h
  exact ⟨a, d, hp, hi a d ha⟩

theorem get {k : Cursor → Parser α} (h : Runs c Q (k c)) : Runs c Q (MonadState.get >>= k) :=
  h

theorem peek {k : Option Kind → Parser α} (h : Runs c Q (k c.kind?)) : Runs c Q (Parser.peek >>= k) :=
  h

theorem here {k : Span → Parser α} (h : Runs c Q (k c.here)) : Runs c Q (Parser.here >>= k) :=
  h

theorem previous {k : Span → Parser α} (h : Runs c Q (k c.previous)) : Runs c Q (Parser.previous >>= k) :=
  h

theorem isAt {k : Bool → Parser α} (h : Runs c Q (k (c.kind? == some kind))) : Runs c Q (Parser.isAt kind >>= k) :=
  h

theorem ifAt (hk : c.kind? = some kind) (h : Runs c Q p) : Runs c Q (Parser.isAt kind >>= fun b => if b then p else q) :=
  .isAt <| by rwa [if_pos (by simpa using hk)]

theorem unlessAt (hk : c.kind? ≠ some kind) (h : Runs c Q q) :
    Runs c Q (Parser.isAt kind >>= fun b => if b then p else q) :=
  .isAt <| by rwa [if_neg (by simpa using hk)]

theorem next (h : c.Ahead (kind :: ks)) : Runs c (fun t d => t.kind = kind ∧ d.Ahead ks) Parser.next := by
  obtain ⟨previous, _ | ⟨t, rest⟩, last, size⟩ := c
  case nil => cases h.kinds
  case cons =>
    obtain ⟨hk, hs⟩ := List.cons.inj h.kinds
    exact ⟨t, _, rfl, hk, hs, Nat.le_of_succ_le h.bounded⟩

theorem expect (h : c.Ahead (kind :: ks)) : Runs c (fun _ d => d.Ahead ks) (Parser.expect kind) := by
  refine .bind (.next h) fun t d ⟨hk, hd⟩ => ?_
  rw [if_pos hk]
  exact .pure hd

theorem ident {text : String} (h : c.Ahead (.name text :: ks)) :
    Runs c (fun i d => i.text = text ∧ d.Ahead ks) Parser.ident := by
  refine .bind (.next h) fun t d ⟨hk, hd⟩ => ?_
  simp only [hk]
  exact .pure ⟨rfl, hd⟩

theorem accept (h : c.Ahead (kind :: ks)) : Runs c (fun b d => b = true ∧ d.Ahead ks) (Parser.accept kind) :=
  .ifAt h.kind? <| .bind (.next h) fun _ _ ⟨_, hd⟩ => .pure ⟨rfl, hd⟩

theorem ifAccept (h : c.Ahead (kind :: ks)) (hp : ∀ d, d.Ahead ks → Runs d Q p) :
    Runs c Q (Parser.accept kind >>= fun b => if b then p else q) := by
  refine .bind (.accept h) ?_
  rintro _ d ⟨rfl, hd⟩
  exact hp d hd

theorem unlessAccept (hk : c.kind? ≠ some kind) (h : Runs c Q q) :
    Runs c Q (Parser.accept kind >>= fun b => if b then p else q) := by
  refine .bind (Q := fun b d => b = false ∧ d = c) (.unlessAt hk <| .pure ⟨rfl, rfl⟩) ?_
  rintro _ _ ⟨rfl, rfl⟩
  exact h

end Runs

namespace Steps

variable {step : Parser (Option α)} {as bs : List α}

theorem append (h : Steps step c as d) (hs : Steps step d bs e) : Steps step c (as ++ bs) e := by
  induction h
  case nil            => exact hs
  case cons h hl _ hi => exact .cons h hl (hi hs)

theorem length_le (h : Steps step c as d) : as.length ≤ c.rest.length := by
  induction h
  case nil            => exact Nat.zero_le _
  case cons hl _ hi   => exact Nat.le_trans (Nat.succ_le_succ hi) hl

theorem repeatUpTo_eq {n : Nat} (h : Steps step c as d) (hn : as.length < n) (he : step d = .ok (none, e)) :
    repeatUpTo step n c = .ok (as, e) := by
  induction n generalizing c as
  case zero => cases hn
  case succ n hi =>
    change (step c >>= fun (o, d) => _) = _
    cases h
    case nil =>
      rw [he]
      rfl
    case cons h _ hs =>
      rw [h]
      change (repeatUpTo step n _ >>= fun (as, e) => _) = _
      rw [hi hs <| Nat.lt_of_succ_lt_succ hn]
      rfl

end Steps

-- One item is read after the other, if what follows an item does not belong to it.
theorem Steps.of_items {γ : Type} {step : Parser (Option α)} {F : List Kind → Prop} {kinds : β → List Kind} {f : α → γ}
    {g : β → γ} {items : List β} {rest : List Kind} (hc : c.Ahead (items.flatMap kinds ++ rest)) (hr : F rest)
    (hf : ∀ b ∈ items, kinds b ≠ [] ∧ ∀ ks, F (kinds b ++ ks))
    (hs : ∀ b ∈ items, ∀ {c ks}, F ks → c.Ahead (kinds b ++ ks) →
      Runs c (fun o d => (∃ a, o = some a ∧ f a = g b) ∧ d.Ahead ks) step) :
    ∃ as d, Steps step c as d ∧ as.map f = items.map g ∧ d.Ahead rest := by
  induction items generalizing c
  case nil => exact ⟨[], c, .nil, rfl, hc⟩
  case cons b items hi =>
    obtain ⟨hb, hs⟩ := List.forall_mem_cons.mp hs
    obtain ⟨⟨hn, -⟩, hf⟩ := List.forall_mem_cons.mp hf
    have hm : F (items.flatMap kinds ++ rest) := by
      cases items
      case nil => exact hr
      case cons =>
        rw [List.flatMap_cons, List.append_assoc]
        exact (hf _ (.head _)).right _
    rw [List.flatMap_cons, List.append_assoc] at hc
    obtain ⟨_, d, he, ⟨a, rfl, ha⟩, hd⟩ := hb hm hc
    obtain ⟨as, e, hs, hm, he'⟩ := hi hd hf hs
    refine ⟨a :: as, e, .cons he ?_ hs, by rw [List.map_cons, List.map_cons, ha, hm], he'⟩
    rw [hd.length, hc.length, @List.length_append _ (kinds b)]
    exact Nat.lt_add_of_pos_left (List.length_pos_iff.mpr hn)

theorem Runs.many {step : Parser (Option α)} {as : List α} {R : List α → Cursor → Prop} (hb : c.rest.length ≤ c.size)
    (h : Steps step c as d) (hs : Runs d (fun o e => o = none ∧ R as e) step) : Runs c R (Parser.many step) := by
  obtain ⟨_, e, he, rfl, ha⟩ := hs
  exact ⟨as, e, h.repeatUpTo_eq (Nat.lt_succ_of_le <| Nat.le_trans h.length_le hb) he, ha⟩

theorem Runs.manyItems {γ : Type} {step : Parser (Option α)} {F : List Kind → Prop} {kinds : β → List Kind} {f : α → γ}
    {g : β → γ} {items : List β} {rest : List Kind} (hc : c.Ahead (items.flatMap kinds ++ rest)) (hr : F rest)
    (hf : ∀ b ∈ items, kinds b ≠ [] ∧ ∀ ks, F (kinds b ++ ks))
    (hs : ∀ b ∈ items, (kinds b).length ≤ (items.flatMap kinds).length → ∀ {c ks}, F ks → c.Ahead (kinds b ++ ks) →
      Runs c (fun o d => (∃ a, o = some a ∧ f a = g b) ∧ d.Ahead ks) step)
    (hn : ∀ {d}, d.Ahead rest → Runs d (fun o e => o = none ∧ e.Ahead rest) step) :
    Runs c (fun as d => as.map f = items.map g ∧ d.Ahead rest) (Parser.many step) := by
  have hl : ∀ b ∈ items, (kinds b).length ≤ (items.flatMap kinds).length := by
    intro b hb
    rw [List.flatMap_def]
    exact (List.sublist_flatten_of_mem <| List.mem_map_of_mem hb).length_le
  obtain ⟨as, d, ha, hm, hd⟩ := Steps.of_items hc hr hf fun b hb => hs b hb (hl b hb)
  exact .many hc.bounded ha <| (hn hd).mono fun _ _ ⟨ho, he⟩ => ⟨ho, hm, he⟩

end Parser
end PyVerify
