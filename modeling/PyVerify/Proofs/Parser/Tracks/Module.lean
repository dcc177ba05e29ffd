import Mathlib.Data.List.Forall2
import PyVerify.Proofs.Parser.Tracks.Statement

namespace PyVerify

open Token (Kind)

variable {f g : Recasting} {c d : Cursor} {t u : Token} {ts us : List Token}

-- All the tokens ahead are the same when they are read anew.
structure Whole (f g : Recasting) (c d : Cursor) : Prop where
  rest      : List.Forall₂ (Kin f g) c.rest d.rest
  previous  : f.place c.previous = g.place d.previous
  last      : f.place c.last = g.place d.last
  size      : c.size ≤ d.size
  bounded   : c.rest.length ≤ c.size ∧ d.rest.length ≤ d.size

theorem Token.Kind.isLayout_recast {k : Kind} : (k.recast f).isLayout = k.isLayout := by
  cases k <;> rfl

theorem Kin.isLayout_eq (h : Kin f g t u) : t.kind.isLayout = u.kind.isLayout := by
  rw [← Kind.isLayout_recast (f := f), h.kind, Kind.isLayout_recast]

theorem Token.kinds_line (h : List.Forall₂ (Kin f g) ts us) :
    (line ts).map (fun t => t.kind.recast f) = (line us).map fun u => u.kind.recast g := by
  induction h
  case nil => rfl
  case cons t u ts us hk _ hi =>
    unfold line at hi ⊢
    rw [List.takeWhile_cons, List.takeWhile_cons, hk.isLayout_eq]
    split
    case isTrue   => rw [List.map_cons, List.map_cons, hk.kind, hi]
    case isFalse  => rfl

namespace Whole

theorem heads (h : Whole f g c d) : Heads f g c d := by
  have hr := h.rest
  unfold Heads
  cases hc : c.rest <;> cases hd : d.rest <;> rw [hc, hd] at hr <;> cases hr
  case nil.nil        => exact .none
  case cons.cons hk _ => exact .some hk

theorem behind (h : Whole f g c d) (hc : c.rest = t :: ts) (hd : d.rest = u :: us) : Whole f g (c.behind t ts) (d.behind u us) := by
  have hr := h.rest
  have hb := h.bounded
  rw [hc, hd] at hr hb
  cases hr
  case cons hk hr => exact ⟨hr, hk.span, h.last, h.size, Nat.le_of_succ_le hb.left, Nat.le_of_succ_le hb.right⟩

end Whole

def Bridge.whole (f g : Recasting) : Bridge f g where
  rel _ _   := Whole f g
  head      := Whole.heads
  step      := fun h hc hd _ => h.behind hc hd
  loosen    := id
  previous  := Whole.previous
  last      := Whole.last
  size      := Whole.size
  bounded   := Whole.bounded

def Frame.whole (f g : Recasting) : Frame f g where
  line _    := .whole f g
  block _   := Whole f g
  words     := fun h => Token.kinds_line h.rest
  newline   := fun h hc hd _ => h.behind hc hd
  stop      := fun h _ _ => h
  enter     := fun h _ => h
  ahead     := fun h => .inl h.heads
  clause    := fun h hc hd _ => h.behind hc hd
  skip      := fun h hc hd _ => h.behind hc hd
  indent    := fun h hc hd _ => h.behind hc hd
  dedent    := fun h hc hd _ => h.behind hc hd
  eof       := fun h _ => h
  previous  := Whole.previous
  size      := Whole.size

namespace Parser

-- The next statements of a module, unless the text ends.
def moduleItem (stmt : Parser (List Stmt)) : Parser (Option (List Stmt)) := do
  skipNewlines
  match ← peek with
  | none | some .eof => return none
  | some .indent => fail .unexpectedIndent
  | some _ => return some (← stmt)

-- The statements of a module begin behind newlines, with a token that neither ends the text nor begins a block.
theorem moduleItem_eq_ok_iff {p : Parser (List Stmt)} {o : Option (List Stmt)} : moduleItem p c = .ok (o, d) ↔
    ∃ e, skipNewlines c = .ok ((), e) ∧ (o = none ∧ d = e ∧ (e.kind? = none ∨ e.kind? = some .eof) ∨
      ∃ ss l, o = some ss ∧ p e = .ok (ss, d) ∧ e.kind? = some l ∧ l ≠ .eof ∧ l ≠ .indent) := by
  have next {e : Cursor} {q : Parser (Option (List Stmt))} (h : q = match e.kind? with
      | none | some .eof  => pure none
      | some .indent      => fail .unexpectedIndent
      | some _            => do return some (← p)) : q e = .ok (o, d) ↔ o = none ∧ d = e ∧ (e.kind? = none ∨ e.kind? = some .eof) ∨
        ∃ ss l, o = some ss ∧ p e = .ok (ss, d) ∧ e.kind? = some l ∧ l ≠ .eof ∧ l ≠ .indent := by
    have hn : (pure none : Parser (Option (List Stmt))) e = .ok (o, d) ↔ o = none ∧ d = e :=
      ⟨by rintro ⟨⟩; exact ⟨rfl, rfl⟩, by rintro ⟨rfl, rfl⟩; rfl⟩
    split at h <;> subst h
    case h_1 hk | h_2 hk => simp_all
    case h_3 hk =>
      refine iff_of_false nofun ?_
      simp_all
    case h_4 l he hi hk =>
      constructor
      case mp =>
        intro h
        obtain ⟨ss, _, hp, h⟩ := ok_of_bind h
        cases h
        exact .inr ⟨ss, l, rfl, hp, hk, he, hi⟩
      case mpr =>
        rintro (⟨-, -, hn⟩ | ⟨ss, _, rfl, hp, -⟩)
        case inl => simp_all
        case inr => exact Tracks.bind_eq hp
  constructor
  case mp =>
    intro h
    obtain ⟨_, e, hs, h⟩ := ok_of_bind h
    exact ⟨e, hs, (next rfl).mp h⟩
  case mpr =>
    rintro ⟨e, hs, h⟩
    exact (Tracks.bind_eq hs).trans ((next rfl).mpr h)

namespace Tracks

variable {stmt stmt' : Parser (List Stmt)}

theorem moduleItem (h : Tracks (Whole f g) (Same f g) (Whole f g) stmt stmt') :
    Tracks (Whole f g) (Same f g) (Whole f g) (Parser.moduleItem stmt) (Parser.moduleItem stmt') := by
  have item : Tracks (Whole f g) (Same f g) (Whole f g) (do return some (← stmt)) (do return some (← stmt')) :=
    .bind h fun ss ss' hs => .pure <| by simp_all
  have skip : Tracks (Whole f g) (fun _ _ => True) (Whole f g) Parser.skipNewlines Parser.skipNewlines :=
    skipNewlines (F := .whole f g) (n := 0)
  refine .bind skip fun _ _ _ => peek (B := .whole f g) (m := 0) (a := false) (fun o ho => ?_) fun x y _ => .seen item
  split
  case h_1 | h_2  => exact .seen <| .pure rfl
  case h_3        => exact .fail
  case h_4        => exact .seen item

theorem flatten_same {ss ss' : List (List Stmt)} (h : Same f g ss ss') : Same f g ss.flatten ss'.flatten := by
  have hf := congrArg List.flatten h
  simp_all

theorem moduleForm (h : Tracks (Whole f g) (Same f g) (Whole f g) stmt stmt') :
    Tracks (Whole f g) (fun m m' => m.recast f = m'.recast g) (Whole f g) (Parser.moduleForm stmt) (Parser.moduleForm stmt') := by
  refine .bind (.many (moduleItem h) fun _ _ => Whole.size) fun ss ss' hs => .pure ?_
  have hf := flatten_same hs
  simp_all [Module.recast]

end Tracks
end Parser

theorem Parser.run'_eq_ok_iff {α : Type} {p : Parser α} {a : α} : p.run' c = .ok a ↔ ∃ d, p c = .ok (a, d) := by
  change Prod.fst <$> p c = .ok a ↔ _
  cases p c
  case error => exact iff_of_false nofun (by rintro ⟨_, ⟨⟩⟩)
  case ok r => exact ⟨fun h => ⟨r.2, by cases h; rfl⟩, fun ⟨_, h⟩ => by cases h; rfl⟩

theorem Whole.ofTokens (h₀ : f.place (.point 0) = g.place (.point 0)) (h : List.Forall₂ (Kin f g) ts us) :
    Whole f g (.ofTokens ts) (.ofTokens us) where
  rest      := h
  previous  := h₀
  last      := by
    have hm : ts.map (fun t => f.place t.span) = us.map fun u => g.place u.span := by
      induction h
      case nil              => rfl
      case cons ht hk _ hi  => rw [List.map_cons, List.map_cons, hk.span, hi]
    have hl := congrArg List.getLast? hm
    rw [List.getLast?_map, List.getLast?_map] at hl
    unfold Cursor.ofTokens
    cases hc : ts.getLast? <;> cases hd : us.getLast? <;> rw [hc, hd] at hl
    case none.none => exact h₀
    case some.some => exact Option.some.inj hl
    all_goals cases hl
  size      := Nat.le_of_eq h.length_eq
  bounded   := ⟨le_rfl, le_rfl⟩

-- Tokens that are the same when they are read anew make modules that are.
theorem Token.parseModule_recast (h₀ : f.place (.point 0) = g.place (.point 0)) (h : List.Forall₂ (Kin f g) ts us) {m : Module}
    (hm : parseModule ts = .ok m) : ∃ n, parseModule us = .ok n ∧ m.recast f = n.recast g := by
  cases h
  case nil =>
    cases hm
    exact ⟨_, rfl, rfl⟩
  case cons t u ts us ht h =>
    have hi : 1 < (t :: ts).length + 1 := by simp
    have hl : (u :: us).length = (t :: ts).length := by simp [h.length_eq]
    have hs := Parser.tracks_stmt (F := .whole f g) (n := 0) hi le_rfl (Nat.le_refl <| (t :: ts).length + 1)
    obtain ⟨d, hm⟩ := Parser.run'_eq_ok_iff.mp hm
    obtain ⟨n, d', hn, hr, -⟩ := Parser.Tracks.moduleForm hs _ _ (.ofTokens h₀ <| .cons ht h) m d hm
    refine ⟨n, Parser.run'_eq_ok_iff.mpr ⟨d', ?_⟩, hr⟩
    rw [hl]
    exact hn

end PyVerify
