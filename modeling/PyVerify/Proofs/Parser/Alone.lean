import PyVerify.Proofs.Parser.Concatenation
import PyVerify.Proofs.Parser.Opens

namespace PyVerify

open Token (Kind Keyword Mark)

variable {α : Type} {c d e : Cursor} {t : Token} {ts : List Token} {x : Expr} {b : Below} {i j m n : Nat}

namespace Parser

-- Newlines, one at a time.

def newline? : Parser (Option Unit) := do
  if ← accept .newline then return some () else return none

theorem newline?_cons (hc : c.rest = t :: ts) (hk : t.kind = .newline) : newline? c = .ok (some (), c.behind t ts) :=
  Tracks.bind_eq (Tracks.accept_eq_true hc hk)

theorem newline?_of_ne (h : c.kind? ≠ some .newline) : newline? c = .ok (none, c) :=
  Tracks.bind_eq (Tracks.accept_eq_false h)

theorem newline?_cases (c : Cursor) : newline? c = .ok (none, c) ∨
    ∃ t ts, c.rest = t :: ts ∧ t.kind = .newline ∧ newline? c = .ok (some (), c.behind t ts) := by
  by_cases hk : c.kind? = some .newline
  case neg => exact .inl (newline?_of_ne hk)
  case pos =>
    obtain ⟨t, ts, hr, hk⟩ := Cursor.exists_of_kind? hk
    exact .inr ⟨t, ts, hr, hk, newline?_cons hr hk⟩

-- There are never more of them than tokens.
theorem repeatUpTo_newline? (hm : c.rest.length < m) (hn : c.rest.length < n) :
    repeatUpTo newline? m c = repeatUpTo newline? n c := by
  induction m generalizing n c
  case zero => cases hm
  case succ m hi =>
    obtain ⟨n, rfl⟩ := Nat.exists_eq_add_of_le' (Nat.lt_of_le_of_lt (Nat.zero_le _) hn)
    rw [repeatUpTo, repeatUpTo]
    obtain h | ⟨t, ts, hr, -, h⟩ := newline?_cases c
    · rw [Tracks.bind_eq h, Tracks.bind_eq h]
    · rw [hr, List.length_cons] at hm hn
      have hs : repeatUpTo newline? m (c.behind t ts) = repeatUpTo newline? n (c.behind t ts) :=
        hi (Nat.lt_of_succ_lt_succ hm) (Nat.lt_of_succ_lt_succ hn)
      rw [Tracks.bind_eq h, Tracks.bind_eq h]
      change (repeatUpTo newline? m (c.behind t ts) >>= _) = (repeatUpTo newline? n (c.behind t ts) >>= _)
      rw [hs]

theorem skipNewlines_cons (hr : c.rest = t :: ts) (hk : t.kind = .newline) (hb : c.rest.length ≤ c.size) :
    skipNewlines c = skipNewlines (c.behind t ts) := by
  have hs : repeatUpTo newline? c.size (c.behind t ts) = repeatUpTo newline? (c.size + 1) (c.behind t ts) := by
    rw [hr, List.length_cons] at hb
    exact repeatUpTo_newline? hb (Nat.lt_succ_of_lt hb)
  change (repeatUpTo newline? (c.size + 1) >>= fun _ => pure ()) c =
    (repeatUpTo newline? (c.size + 1) (c.behind t ts) >>= _)
  rw [←hs, repeatUpTo, bind_assoc, Tracks.bind_eq (newline?_cons hr hk)]
  change ((repeatUpTo newline? c.size (c.behind t ts) >>= _) >>= _) = _
  rw [bind_assoc]
  rfl

-- Only newlines and the end of the text stand ahead.
def AtEnd (c : Cursor) : Prop :=
  ∃ d, skipNewlines c = .ok ((), d) ∧ d.kind? = some .eof

theorem AtEnd.layout (h : AtEnd c) : ∀ k, c.kind? = some k → k.isLayout := by
  obtain ⟨d, hs, hd⟩ := h
  intro k hk
  by_cases hn : k = .newline
  case pos => exact hn ▸ rfl
  case neg =>
    cases (skipNewlines_eq fun h => hn (Option.some.inj (hk.symm.trans h))).symm.trans hs
    cases hk.symm.trans hd
    rfl

theorem AtEnd.behind (hr : c.rest = t :: ts) (hk : t.kind = .newline) (hb : c.rest.length ≤ c.size) :
    AtEnd c ↔ AtEnd (c.behind t ts) := by
  rw [AtEnd, skipNewlines_cons hr hk hb, AtEnd]

theorem Runs.eq_ok {a : α} {p : Parser α} (h : Runs c (fun y e => y = a ∧ e = d) p) : p c = .ok (a, d) := by
  obtain ⟨_, _, h, rfl, rfl⟩ := h
  exact h

theorem isAt_eq (c : Cursor) (k : Kind) : isAt k c = .ok (c.kind? == some k, c) := rfl

theorem endOfLine_newline (hr : c.rest = t :: ts) (hk : t.kind = .newline) : endOfLine c = .ok ((), c.behind t ts) :=
  Tracks.bind_eq (Tracks.accept_eq_true hr hk)

theorem endOfLine_eq_ok_iff (hk : c.kind? ≠ some .newline) :
    endOfLine c = .ok ((), d) ↔ d = c ∧ (c.kind? = some .eof ∨ c.kind? = some .dedent) := by
  rw [endOfLine, Tracks.bind_eq (Tracks.accept_eq_false hk), if_neg Bool.false_ne_true, Tracks.bind_eq (isAt_eq c .eof),
    Tracks.bind_eq (isAt_eq c .dedent)]
  by_cases h : c.kind? = some .eof ∨ c.kind? = some .dedent
  case pos =>
    rw [if_pos (by simpa using h)]
    exact ⟨fun he => ⟨by cases he; rfl, h⟩, by rintro ⟨rfl, -⟩; rfl⟩
  case neg =>
    rw [if_neg (by simpa using h)]
    exact iff_of_false nofun fun hd => h hd.right

-- The end of a text is in front of the end of a line, and behind it.
theorem atEnd_iff (hb : c.rest.length ≤ c.size) : AtEnd c ↔ ∃ d, endOfLine c = .ok ((), d) ∧ AtEnd d := by
  by_cases hk : c.kind? = some .newline
  case pos =>
    obtain ⟨t, ts, hr, hk⟩ := Cursor.exists_of_kind? hk
    rw [AtEnd.behind hr hk hb, endOfLine_newline hr hk]
    exact ⟨fun h => ⟨_, rfl, h⟩, by rintro ⟨_, ⟨⟩, h⟩; exact h⟩
  case neg =>
    simp only [endOfLine_eq_ok_iff hk]
    constructor
    case mp =>
      rintro ⟨d, hs, hd⟩
      cases (skipNewlines_eq hk).symm.trans hs
      exact ⟨c, ⟨rfl, .inl hd⟩, c, hs, hd⟩
    case mpr =>
      rintro ⟨_, ⟨rfl, -⟩, h⟩
      exact h

theorem repeatUpTo_nil {step : Parser (Option α)} (h : step c = .ok (none, d)) :
    repeatUpTo step (n + 1) c = .ok ([], d) := by
  rw [repeatUpTo, Tracks.bind_eq h]
  rfl

theorem none_of_repeatUpTo {step : Parser (Option α)} (h : repeatUpTo step n c = .ok ([], d)) :
    step c = .ok (none, d) := by
  cases n
  case zero => cases h
  case succ =>
    obtain ⟨_ | _, e, hs, h⟩ := ok_of_bind h
    case none =>
      cases h
      exact hs
    case some =>
      obtain ⟨_, _, -, h⟩ := ok_of_bind h
      cases h

theorem many_eq_nil_iff {step : Parser (Option α)} : many step c = .ok ([], d) ↔ step c = .ok (none, d) :=
  ⟨none_of_repeatUpTo, repeatUpTo_nil⟩

-- An expression that ends with its line is no statement of another kind.

section

variable (h : exprList (Below.ofDepth i) c = .ok (x, d))

include h

theorem exprList_kind?_ne {k : Kind} (hk : k.beginsExpr = false) : c.kind? ≠ some k := by
  obtain ⟨l, hl, hs⟩ := startsExpr_eq_true_iff.mp (Opens.exprList .ofDepth c x d h)
  rintro hc
  cases hl.symm.trans hc
  exact Bool.false_ne_true (hk.symm.trans hs)

variable (hb : c.rest.length ≤ c.size)

include hb

-- It takes tokens of one line, and the last of them is no colon.
theorem exprList_inline : d.rest.length ≤ d.size ∧ ∃ w, c.rest = w ++ d.rest ∧ Inline 0 true w := by
  have h₀ : (Bridge.alone gathers_inline c.rest).rel 0 false c c := ⟨rfl, hb, [], rfl, nofun, nofun⟩
  obtain ⟨_, _, he, -, -, hb, w, hw, hl⟩ := Tracks.exprList (Below.tracks_ofDepth le_rfl) 0 false c c h₀ x d h
  cases h.symm.trans he
  exact ⟨hb, w, hw, hl⟩

variable (hd : ∀ k, d.kind? = some k → k.isLayout)

include hd

theorem exprList_not_opensMatch : ¬OpensMatch (Below.ofDepth j) c := by
  intro hm
  obtain ⟨t, ht, hk⟩ := hm.colon_last hb
  obtain ⟨-, w, hw, hl⟩ := exprList_inline h hb
  rw [hw, Token.line_append hl.inside, Token.line_eq_nil hd, List.append_nil] at ht
  obtain ⟨u, hu, hn⟩ := hl.last rfl
  cases ht.symm.trans hu
  exact hn hk

omit hb in
theorem exprStmt_of_exprList : exprStmt (Below.ofDepth i) c = .ok ((.expr · x), d) := by
  have hn {k : Kind} (hk : k.isLayout = false) : d.kind? ≠ some k := fun h => absurd (hd k h) (by simp [hk])
  have hx : exprListOrYield (Below.ofDepth i) c = .ok (x, d) := by
    rw [exprListOrYield, Tracks.bind_eq (isAt_eq c _), if_neg (by simpa using exprList_kind?_ne h rfl)]
    exact h
  have ha : d.kind?.bind augmentedOp? = none := by
    cases hk : d.kind?
    case none => rfl
    case some k =>
      have hl := hd k hk
      cases k <;> first | rfl | cases hl
  have hs : many (after Mark.assign (exprListOrYield (Below.ofDepth i))) d = .ok ([], d) :=
    many_eq_nil_iff.mpr <| Tracks.bind_eq <| Tracks.accept_eq_false <| hn rfl
  rw [exprStmt, Tracks.bind_eq hx, Tracks.bind_eq (show peek d = .ok (d.kind?, d) from rfl), ha]
  dsimp only
  rw [Tracks.bind_eq <| Tracks.accept_eq_false <| hn rfl, if_neg Bool.false_ne_true, Tracks.bind_eq hs]
  rfl

variable (hi : 1 < i)

include hi

-- A type alias, read as an expression, stops before its second word.
theorem exprList_startsTypeAlias : startsTypeAlias c = .ok (false, c) := by
  obtain ⟨y, hy, hk⟩ := startsTypeAlias_eq c
  cases y
  case false => exact hy
  case true =>
    obtain ⟨hm, ⟨name, hn⟩, -⟩ := hk.mp rfl
    obtain ⟨ks, ha⟩ := ahead_of_twoNames hb hm hn
    obtain ⟨_, _, hs, he⟩ := exprStmt_stops hi ha
    cases (exprStmt_of_exprList h hd).symm.trans hs
    cases hd _ he.kind?

theorem smallForm_of_exprList : smallForm (Below.ofDepth i) c = .ok ((.expr · x), d) := by
  obtain ⟨k, hk, hs⟩ := startsExpr_eq_true_iff.mp (Opens.exprList .ofDepth c x d h)
  refine Runs.eq_ok <| .peek ?_
  rw [hk]
  split
  case h_12 =>
    refine ⟨_, _, ?_, rfl, rfl⟩
    rw [Tracks.bind_eq (exprList_startsTypeAlias h hb hd hi)]
    exact exprStmt_of_exprList h hd
  all_goals
    rename_i hw
    cases hw
    cases hs

theorem smallStmt_of_exprList : smallStmt (Below.ofDepth i) c = .ok (.expr (c.here.join d.previous) x, d) := by
  have hf := smallForm_of_exprList h hb hd hi
  rw [smallStmt, Tracks.bind_eq (show here c = .ok (c.here, c) from rfl), Tracks.bind_eq hf]
  rfl

variable (he : endOfLine d = .ok ((), e))

include he

theorem simpleStmts_of_exprList : simpleStmts (Below.ofDepth i) c = .ok ([.expr (c.here.join d.previous) x], e) := by
  have hn : nextStmt (Below.ofDepth i) d = .ok (none, d) := by
    refine Tracks.bind_eq <| Tracks.accept_eq_false fun hk => ?_
    cases hd _ hk
  have hl : lineStmts (Below.ofDepth i) c = .ok ([.expr (c.here.join d.previous) x], d) := by
    rw [lineStmts, Tracks.bind_eq (smallStmt_of_exprList h hb hd hi), Tracks.bind_eq (many_eq_nil_iff.mpr hn)]
    rfl
  rw [simpleStmts_eq, Tracks.bind_eq hl, Tracks.bind_eq he]
  rfl

theorem stmt_of_exprList : stmt (Below.ofDepth i) (j + 1) c = .ok ([.expr (c.here.join d.previous) x], e) := by
  obtain ⟨k, hk, hs⟩ := startsExpr_eq_true_iff.mp (Opens.exprList .ofDepth c x d h)
  obtain ⟨y, hy, hm⟩ := startsMatch_eq (Below.ofDepth i) c
  have hy' : y = false := Bool.eq_false_iff.mpr fun hy => exprList_not_opensMatch h hb hd (hm.mp hy)
  subst hy'
  refine Runs.eq_ok <| .here <| .peek ?_
  rw [hk]
  split
  case h_10 =>
    refine ⟨_, _, ?_, rfl, rfl⟩
    rw [Tracks.bind_eq hy]
    exact simpleStmts_of_exprList h hb hd hi he
  all_goals
    rename_i hw
    cases hw
    cases hs

theorem moduleItem_of_exprList :
    moduleItem (stmt (Below.ofDepth i) (j + 1)) c = .ok (some [.expr (c.here.join d.previous) x], e) := by
  obtain ⟨k, hk, -⟩ := startsExpr_eq_true_iff.mp (Opens.exprList .ofDepth c x d h)
  have hn {l : Kind} (hl : l.beginsExpr = false) : k ≠ l := fun hkl => exprList_kind?_ne h hl (hkl ▸ hk)
  have hs := stmt_of_exprList (j := j) h hb hd hi he
  exact moduleItem_eq_ok_iff.mpr
    ⟨c, skipNewlines_eq (exprList_kind?_ne h rfl), .inr ⟨_, k, rfl, hs, hk, hn rfl, hn rfl⟩⟩

end

theorem exprForm_eq_ok_iff : (∃ e, exprForm b c = .ok (x, e)) ↔ ∃ d, exprList b c = .ok (x, d) ∧ AtEnd d := by
  constructor
  case mp =>
    rintro ⟨e, h⟩
    obtain ⟨y, d, hx, h⟩ := ok_of_bind h
    obtain ⟨⟨⟩, g, hs, h⟩ := ok_of_bind h
    rw [Tracks.bind_eq (isAt_eq g .eof)] at h
    by_cases hk : g.kind? = some .eof
    case pos =>
      rw [if_pos (by simpa using hk)] at h
      cases h
      exact ⟨d, hx, _, hs, hk⟩
    case neg =>
      rw [if_neg (by simpa using hk)] at h
      cases h
  case mpr =>
    rintro ⟨d, hx, g, hs, hk⟩
    refine ⟨g, ?_⟩
    rw [exprForm, Tracks.bind_eq hx, Tracks.bind_eq hs, Tracks.bind_eq (isAt_eq g .eof), if_pos (by simpa using hk)]
    rfl

theorem moduleItem_of_atEnd {p : Parser (List Stmt)} (h : AtEnd c) : ∃ d, moduleItem p c = .ok (none, d) := by
  obtain ⟨d, hs, hd⟩ := h
  exact ⟨d, moduleItem_eq_ok_iff.mpr ⟨d, hs, .inl ⟨rfl, rfl, .inr hd⟩⟩⟩

end Parser

-- An expression alone is read as a module of one statement.
theorem Token.parseModule_of_parseExpr {tokens : List Token} (h : parseExpr tokens = .ok x) :
    ∃ z, parseModule tokens = .ok ⟨[.expr z x]⟩ := by
  obtain ⟨d, hx, hd⟩ := Parser.exprForm_eq_ok_iff.mp (Parser.run'_eq_ok_iff.mp h)
  obtain ⟨hb, -⟩ := Parser.exprList_inline hx le_rfl
  obtain ⟨d', he, hd'⟩ := (Parser.atEnd_iff hb).mp hd
  obtain ⟨k, hk, -⟩ := Parser.startsExpr_eq_true_iff.mp (Parser.Opens.exprList .ofDepth _ x d hx)
  cases tokens
  case nil => cases hk
  case cons t ts =>
    have hm := Parser.moduleItem_of_exprList (j := (t :: ts).length) hx le_rfl hd.layout
      (Nat.succ_lt_succ (Nat.succ_pos _)) he
    obtain ⟨e, hn⟩ := Parser.moduleItem_of_atEnd hd'
    exact ⟨_, parseModule_eq_ok_iff.mpr ⟨[[_]], e, Parser.repeatUpTo_cons hm (Parser.repeatUpTo_nil hn), rfl⟩⟩

end PyVerify
