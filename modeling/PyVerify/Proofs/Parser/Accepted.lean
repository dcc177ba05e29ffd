import PyVerify.Proofs.Code.Chain
import PyVerify.Proofs.Parser.Reads.Statement

namespace PyVerify

open Code (Verifier chainAt? chainAt?_eq_some lowerOpen)

variable {f : ℕ →o ℕ} {m : Module} {tokens : List Token}

namespace Item

theorem Sound.formed {i : Item} : i.Sound f → i.WellFormed
  | .intro h _ _ _ => h

theorem Sound.ordered {i : Item} : i.Sound f → ∀ b ∈ i.blocks, InOrder f b
  | .intro _ h _ _ => h

-- What holds of an item holds of all items below it.
theorem Sound.of_within {i j : Item} (h : j.Sound f) (hw : i.Within j) :
    i.Sound f ∧ f j.span.start ≤ f i.span.start ∧ f i.span.stop ≤ f j.span.stop := by
  induction hw
  case refl => exact ⟨h, le_rfl, le_rfl⟩
  case tail hp hi =>
    cases h
    case intro hs hz =>
      obtain ⟨hi, hl, hr⟩ := hi (hs _ hp)
      obtain ⟨hm, hn⟩ := hz _ hp
      exact ⟨hi, hm.trans hl, hr.trans hn⟩

end Item

-- The statements of a program were read one behind the other.
theorem Token.blocks_of_parseModule (h : Token.parseModule tokens = .ok m) (ht : Token.Ascend f tokens) :
    ∃ d, d.Ascends f ∧ (Cursor.ofTokens tokens).Blocks f m.body d :=
  (Parser.Ends.moduleForm fun _ => .stmt (Below.reads_ofDepth _) _).of_run (Cursor.ofTokens_ascends ht) h

namespace Module

-- What the passes behind the parser are made for: among the operands of a comparison, those of each operator are
-- found by their positions.
structure WellFormed (m : Module) : Prop where
  nodes   : ∀ n, m.Occurs n → n.WellFormed
  chains  : ∀ v s left links, m.Occurs (.expr (.compare s left links)) →
    chainAt? v left links = some <$> lowerOpen v (.compare s left links)

-- An item stands in a program.
def Holds (m : Module) (i : Item) : Prop :=
  ∃ s ∈ m.body, i.Within (.stmt s)

-- All items have their places in the text, each of them within those of the items above it, and the statements of a
-- block follow each other.
structure Nested (m : Module) (text : List Char) : Prop where
  inside  : ∀ i, m.Holds i → i.span.Within ⟨0, utf8Length text⟩
  within  : ∀ i j : Item, m.Holds i → j.Within i → j.span.Within i.span
  body    : m.body.Pairwise fun s t => s.span.stop ≤ t.span.start
  blocks  : ∀ i, m.Holds i → ∀ b ∈ i.blocks, b.Pairwise fun s t => s.span.stop ≤ t.span.start

end Module

-- All positions are the same here, as a list of tokens may have them in any order.
theorem Token.wellFormed_of_occurs {n : Node} (h : Token.parseModule tokens = .ok m) (hn : m.Occurs n) : n.WellFormed := by
  obtain ⟨s, hs, hn⟩ := hn
  have ht : Token.Ascend ((OrderHom.const ℕ) 0) tokens := List.pairwise_of_forall fun _ _ => ⟨le_rfl, le_rfl, fun _ => le_rfl⟩
  obtain ⟨d, -, hb⟩ := blocks_of_parseModule h ht
  have hi := ((hb.spans.sound _ <| List.mem_map_of_mem hs).of_within hn.item).left.formed
  cases n <;> exact hi

-- An assignment, with all tokens in one place.
def piled : List Token :=
  [.name "a", .mark .comma, .mark .star, .name "b", .mark .assign, .name "x", .mark .less, .name "y", .keyword .kwNot,
    .keyword .kwIn, .name "z", .newline, .eof].map (⟨·, .point 0⟩)

theorem Module.parse_nested {text : List Char} (h : Module.parse text = .ok m) : m.Nested text := by
  obtain ⟨tokens, ht, h⟩ := exists_ok_of_bind h
  have hm : Token.parseModule tokens = .ok m := by
    cases hr : Token.parseModule tokens <;> rw [hr] at h <;> cases h
    rfl
  have ht := Token.tokenize_between (f := OrderHom.id) ht
  obtain ⟨d, hd, hb⟩ := Token.blocks_of_parseModule (f := OrderHom.id) hm ht.ascend
  have hi : ∀ i, m.Holds i → i.Sound OrderHom.id ∧ i.span.stop ≤ d.stop := by
    rintro i ⟨s, hs, hi⟩
    have hs := List.mem_map_of_mem (f := Item.stmt) hs
    obtain ⟨hi, hz⟩ := (hb.spans.sound _ hs).of_within hi
    exact ⟨hi, hz.right.trans (hb.spans.between _ hs).right⟩
  constructor
  case inside =>
    have hl : d.stop ≤ utf8Length text := hd.reached.trans <| hb.spans.moves.last ▸ Cursor.ofTokens_stop_le ht.stop
    intro i hm
    exact ⟨Nat.zero_le _, by simpa [Span.stop] using (hi i hm).right.trans hl⟩
  case within => exact fun i j hm hj => ((hi i hm).left.of_within hj).right
  case body   => exact hb.ordered
  case blocks => exact fun i hm => (hi i hm).left.ordered

-- The conditional ends in the margin of the statement behind it.
def folded : List Char :=
  "while (a):\n  if b:\n    (c) = \"é\",\n  d\ne\n".toList

theorem folded_nested : ∃ m, Module.parse folded = .ok m ∧ m.body.map Stmt.span = [⟨0, 39⟩, ⟨39, 1⟩] ∧
    (m.body.flatMap Stmt.children).map Stmt.span = [⟨13, 24⟩, ⟨37, 1⟩] ∧ m.Nested folded := by
  have hc : (Module.parse folded).toOption.bind
      (fun m => some (m.body.map Stmt.span, (m.body.flatMap Stmt.children).map Stmt.span)) =
        some ([⟨0, 39⟩, ⟨39, 1⟩], [⟨13, 24⟩, ⟨37, 1⟩]) := by decide +kernel
  obtain ⟨m, hm, hc⟩ := exists_ok_of_toOption hc
  obtain ⟨hs, hb⟩ := Prod.mk.inj <| Option.some.inj hc
  exact ⟨m, hm, hs, hb, Module.parse_nested hm⟩

end PyVerify
