import PyVerify.Proofs.Parser.Tracks.Line

namespace PyVerify

open Token (Kind Keyword Mark)

variable {f g : Recasting} {B : Bridge f g} {b b' : Below} {m n : Nat} {a : Bool} {c d e : Cursor} {t : Token} {ts : List Token}

theorem Token.Kind.Goes.ne_colon {k : Kind} (h : k.Goes m a n true) : k ≠ Mark.colon := by
  rintro rfl
  obtain ⟨h⟩ | _ := h
  cases h
  case plain h | opens h | closes h | clause h => cases h

-- What a parser takes within a line.
structure Gathers (P : Nat → Bool → List Token → Prop) : Prop where
  step    : ∀ {m a n b w} {t : Token}, P m a w → t.kind.Goes m a n b → P n b (w ++ [t])
  loosen  : ∀ {m w}, P m true w → P m false w

theorem Kin.refl (t : Token) : Kin .keep .keep t t :=
  ⟨rfl, rfl, fun _ _ _ _ _ h => h⟩

theorem Heads.refl (c : Cursor) : Heads .keep .keep c c := by
  unfold Heads
  cases c.rest
  case nil  => exact .none
  case cons => exact .some <| .refl _

-- A parser at the side of itself, with what it took since a place.
def Bridge.alone {P : Nat → Bool → List Token → Prop} (h : Gathers P) (whole : List Token) : Bridge .keep .keep where
  rel m a c d     := c = d ∧ c.rest.length ≤ c.size ∧ ∃ w, whole = w ++ c.rest ∧ P m a w
  head            := fun h => h.left ▸ .refl _
  step            := by
    rintro m a c _ n b t u ts us ⟨rfl, hb, w, rfl, hw⟩ hc hd hg
    cases hc.symm.trans hd
    rw [hc] at hb
    exact ⟨rfl, Nat.le_of_succ_le hb, w ++ [t], by simp [Cursor.behind, hc], h.step hw hg⟩
  loosen          := fun ⟨hc, hb, w, ho, hw⟩ => ⟨hc, hb, w, ho, h.loosen hw⟩
  previous        := fun h => congrArg Cursor.previous h.left
  last            := fun h => congrArg Cursor.last h.left
  size            := fun h => Nat.le_of_eq <| congrArg Cursor.size h.left
  bounded         := by
    rintro m a c _ ⟨rfl, hb, -⟩
    exact ⟨hb, hb⟩

-- The tokens up to the end of the line.
def Token.line (ts : List Token) : List Token :=
  ts.takeWhile fun t => !t.kind.isLayout

-- Tokens of one line; the last one is no colon where that is known.
structure Inline (m : Nat) (a : Bool) (w : List Token) : Prop where
  inside  : ∀ t ∈ w, t.kind.isLayout = false
  last    : a = true → ∃ t ∈ w.getLast?, t.kind ≠ Mark.colon

theorem gathers_inline : Gathers Inline where
  step hw hg := by
    refine ⟨fun u hu => ?_, ?_⟩
    case refine_1 =>
      obtain hu | hu := List.mem_append.mp hu
      case inl => exact hw.inside u hu
      case inr =>
        cases List.mem_singleton.mp hu
        exact hg.not_isLayout
    case refine_2 =>
      rintro rfl
      exact ⟨_, List.getLast?_concat, hg.ne_colon⟩
  loosen hw := ⟨hw.inside, nofun⟩

theorem Token.line_append {w : List Token} (h : ∀ t ∈ w, t.kind.isLayout = false) : line (w ++ ts) = w ++ line ts :=
  List.takeWhile_append_of_pos fun t ht => by simp [h t ht]

theorem Token.line_eq_nil (h : ∀ k, ts.head?.map Token.kind = some k → k.isLayout) : line ts = [] := by
  cases ts
  case nil    => rfl
  case cons t _ => exact List.takeWhile_cons_of_neg <| by simp [h t.kind rfl]

namespace Parser

-- The word `match`, an expression and a colon are a line.
def OpensMatch (b : Below) (c : Cursor) : Prop :=
  ∃ t ts e d, c.rest = t :: ts ∧ t.kind = .name "match" ∧ startsExpr (c.behind t ts) = .ok (true, c.behind t ts) ∧
    exprList b (c.behind t ts) = .ok (e, d) ∧ d.kind? = some Mark.colon ∧ d.secondKind? = some .newline

theorem startsExpr_eq (c : Cursor) : ∃ x, startsExpr c = .ok (x, c) := by
  obtain ⟨x, _, h, rfl⟩ : Runs c (fun _ d => d = c) startsExpr := .peek <| by split <;> exact .pure rfl
  exact ⟨x, h⟩

theorem lookAhead_eq (p : Parser Bool) (c : Cursor) : ∃ x, lookAhead p c = .ok (x, c) ∧ (x = true ↔ ∃ d, p c = .ok (true, d)) := by
  unfold lookAhead
  cases hp : p c
  case error => exact ⟨false, rfl, by simp⟩
  case ok r => exact ⟨r.1, rfl, by simp [Prod.ext_iff]⟩

theorem next_eq (h : c.rest = t :: ts) : next c = .ok (t, c.behind t ts) := by
  obtain ⟨previous, rest, last, size⟩ := c
  cases h
  rfl

-- Looking ahead never fails, and leaves the cursor where it was.
theorem startsMatch_eq (b : Below) (c : Cursor) : ∃ x, startsMatch b c = .ok (x, c) ∧ (x = true ↔ OpensMatch b c) := by
  suffices h : Runs c (fun x d => d = c ∧ (x = true ↔ OpensMatch b c)) (startsMatch b) by
    obtain ⟨x, _, h, rfl, hx⟩ := h
    exact ⟨x, h, hx⟩
  refine .peek ?_
  by_cases hc : c.kind? = some (.name "match")
  case neg =>
    rw [if_neg hc]
    refine .pure ⟨rfl, iff_of_false nofun ?_⟩
    rintro ⟨t, ts, -, -, hr, ht, -⟩
    exact hc <| by simp [Cursor.kind?, hr, ht]
  case pos =>
    obtain ⟨t, ts, hr, ht⟩ := Cursor.exists_of_kind? hc
    rw [if_pos hc]
    obtain ⟨x, h, hx⟩ := lookAhead_eq _ c
    refine ⟨x, c, h, rfl, hx.trans ?_⟩
    rw [Tracks.bind_eq (next_eq hr)]
    obtain ⟨y, hy⟩ := startsExpr_eq (c.behind t ts)
    rw [Tracks.bind_eq hy]
    cases y
    case false =>
      refine iff_of_false (by rintro ⟨_, ⟨⟩⟩) ?_
      rintro ⟨t', ts', -, -, hr', -, hs, -⟩
      cases hr.symm.trans hr'
      cases hy.symm.trans hs
    case true =>
      constructor
      case mp =>
        rintro ⟨d, h⟩
        obtain ⟨e, d', he, h⟩ := ok_of_bind h
        have hl : d'.kind? == some (.mark .colon) && d'.secondKind? == some .newline := congrArg Prod.fst (Except.ok.inj h)
        simp only [Bool.and_eq_true, beq_iff_eq] at hl
        exact ⟨t, ts, e, d', hr, ht, hy, he, hl⟩
      case mpr =>
        rintro ⟨t', ts', e, d', hr', -, -, he, hk, hs⟩
        cases hr.symm.trans hr'
        refine ⟨d', (Tracks.bind_eq he).trans ?_⟩
        change Except.ok (d'.kind? == some (.mark .colon) && d'.secondKind? == some .newline, d') = _
        rw [hk, hs]
        rfl

-- A line that opens a match statement ends in a colon.
theorem OpensMatch.colon_last {i : Nat} (h : OpensMatch (Below.ofDepth i) c) (hc : c.rest.length ≤ c.size) :
    ∃ t ∈ (Token.line c.rest).getLast?, t.kind = Mark.colon := by
  obtain ⟨t, ts, e, d, hr, ht, -, he, hk, hs⟩ := h
  let B := Bridge.alone gathers_inline c.rest
  have h₀ : B.rel 0 false c c := ⟨rfl, hc, [], rfl, nofun, nofun⟩
  obtain ⟨_, _, he', -, hd⟩ := Tracks.exprList (Below.tracks_ofDepth le_rfl) 0 true _ _ (B.step h₀ hr hr <| ht ▸ .name) e d he
  cases he.symm.trans he'
  obtain ⟨u, us, -, -, hu, -, hk, -⟩ := (B.head hd).taken hk
  obtain ⟨-, -, w, hw, hl⟩ := hd
  have hi : ∀ t ∈ w ++ [u], t.kind.isLayout = false :=
    List.forall_mem_append.mpr ⟨hl.inside, List.forall_mem_singleton.mpr <| hk ▸ rfl⟩
  rw [← Cursor.kind?_behind hu] at hs
  have hn : Token.line us = [] := Token.line_eq_nil <| by
    intro k hk
    cases hs.symm.trans hk
    rfl
  rw [hw, hu, List.append_cons, Token.line_append hi, hn, List.append_nil]
  exact ⟨u, List.getLast?_concat, hk⟩

-- Simple statements on a line do not end in a colon.
theorem lineStmts_last {i : Nat} (hi : 1 < i) {ss : List Stmt} (h : lineStmts (Below.ofDepth i) c = .ok (ss, d)) (hc : c.rest.length ≤ c.size)
    (hd : ∀ k, d.kind? = some k → k.isLayout) : ∃ t ∈ (Token.line c.rest).getLast?, t.kind ≠ Mark.colon := by
  have hn : NoName d := fun x hx => nomatch hd _ hx
  obtain ⟨_, _, -, -, rfl, -, w, hw, hl⟩ := TracksTo.lineStmts hi le_rfl (m := 0) (a := false) c c (B := .alone gathers_inline c.rest)
    ⟨rfl, hc, [], rfl, nofun, nofun⟩ ss d h hn
  rw [hw, Token.line_append hl.inside, Token.line_eq_nil hd, List.append_nil]
  exact hl.last rfl

theorem OpensMatch.tracks (h : b.Tracks B b') (hs : B.rel m a c d) (hc : OpensMatch b c) : OpensMatch b' d := by
  obtain ⟨t, ts, e, c', hr, ht, hx, he, hk, hn⟩ := hc
  have hm : c.kind? = some (.name "match") := by simp [Cursor.kind?, hr, ht]
  obtain ⟨-, hm'⟩ := (B.head hs).soft (by decide) hm
  obtain ⟨u, us, hr', hu⟩ := (B.head hs).next hr
  have hs' : B.rel m true (c.behind t ts) (d.behind u us) := B.step hs hr hr' (ht ▸ .name)
  obtain ⟨_, _, hy, rfl, -⟩ := Tracks.startsExpr _ _ hs' _ _ hx
  obtain ⟨_, hy'⟩ := startsExpr_eq (d.behind u us)
  cases hy.symm.trans hy'
  obtain ⟨e', d', he', -, hd⟩ := Tracks.exprList h m true _ _ hs' e c' he
  obtain ⟨v, vs, w, ws, hv, hw, hk', -⟩ := (B.head hd).taken hk
  refine ⟨u, us, e', d', hr', by simpa [Cursor.kind?, hr'] using hm', hy, he', ((B.head hd).kind?_eq_some_iff rfl).mp hk, ?_⟩
  have hg : v.kind.Goes m true m false := hk' ▸ .turn .colon
  exact (B.secondKind?_eq_some_iff hd hv hw hg rfl).mp hn

end Parser
end PyVerify
