import PyVerify.Proofs.Parser.Alone
import PyVerify.Proofs.Parser.Reads.Statement

namespace PyVerify

open Token (Kind Keyword Mark)

def Expr.isYield : Expr → Bool
  | .yield .. | .yieldFrom ..  => true
  | _                          => false

def Stmt.isExpr : Stmt → Bool
  | .expr ..  => true
  | _         => false

variable {z : Span} {x : Expr} {tokens : List Token} {text : List Char}

namespace Parser

variable {α β : Type} {P : α → Prop} {p q : Parser α} {b : Below} {c d e : Cursor} {k : Kind} {s : Stmt}
  {i m n : Nat}

-- The statement whose place is not known yet is an expression.
def IsExpr (form : Span → Stmt) : Prop :=
  ∃ z, (form z).isExpr

-- What a parser gives with a property is what another one gives.
def Defers (P : α → Prop) (q p : Parser α) : Prop :=
  ∀ c a d, p c = .ok (a, d) → P a → q c = .ok (a, d)

namespace Defers

theorem refl : Defers P p p :=
  fun _ _ _ h _ => h

theorem of_makes (h : Makes (¬P ·) p) : Defers P q p :=
  fun c a d hp ha => (h c a d hp ha).elim

-- What is read first is either left ahead, or nothing with the property follows.
theorem bind {g : Parser β} {f : β → Parser α}
    (h : ∀ c y d, g c = .ok (y, d) → (d = c ∧ Defers P q (f y)) ∨ Makes (¬P ·) (f y)) : Defers P q (g >>= f) := by
  intro c a e hp ha
  obtain ⟨y, d, hg, hf⟩ := ok_of_bind hp
  obtain ⟨rfl, hd⟩ | hm := h c y d hg
  case inl => exact hd d a e hf ha
  case inr => exact (hm d a e hf ha).elim

theorem peek {f : Option Kind → Parser α} (h : ∀ o, Defers P q (f o)) : Defers P q (Parser.peek >>= f) :=
  .bind <| by rintro c _ _ ⟨⟩; exact .inl ⟨rfl, h _⟩

theorem here {f : Span → Parser α} (h : ∀ z, Defers P q (f z)) : Defers P q (Parser.here >>= f) :=
  .bind <| by rintro c _ _ ⟨⟩; exact .inl ⟨rfl, h _⟩

theorem accept {f : Bool → Parser α} (ht : Makes (¬P ·) (f true)) (hf : Defers P q (f false)) :
    Defers P q (Parser.accept k >>= f) := by
  refine .bind fun c y d h => ?_
  by_cases hk : c.kind? = some k
  case neg =>
    cases h.symm.trans (Tracks.accept_eq_false hk)
    exact .inl ⟨rfl, hf⟩
  case pos =>
    obtain ⟨t, ts, hr, hk⟩ := Cursor.exists_of_kind? hk
    cases h.symm.trans (Tracks.accept_eq_true hr hk)
    exact .inr ht

theorem many_after {g : Parser β} {f : List β → Parser α} (hn : Defers P q (f []))
    (hs : ∀ y ys, Makes (¬P ·) (f (y :: ys))) : Defers P q (Parser.many (Parser.after k g) >>= f) := by
  refine .bind fun c ys d h => ?_
  cases ys
  case cons => exact .inr (hs _ _)
  case nil =>
    have ha : Defers (· = none) (Pure.pure none) (Parser.after k g) :=
      .accept (.bind fun _ => .pure nofun) .refl
    cases ha c _ d (many_eq_nil_iff.mp h) rfl
    exact .inl ⟨rfl, hn⟩

end Defers

-- Statements that begin with a word of their own are no expressions.

section

variable {nested : Parser (List Stmt)} {start : Span} {ds : List Expr} {y : Bool}

theorem makes_functionDef : Makes (¬·.isExpr) (functionDef b nested start ds y) :=
  .bind fun _ => .bind fun _ => .bind fun _ => .bind fun _ => .bind fun _ => .bind fun _ => .bind fun _ =>
    .bind fun _ => .pure nofun

theorem makes_classDef : Makes (¬·.isExpr) (classDef b nested start ds) :=
  .bind fun _ => .bind fun _ => .bind fun _ => .bind fun _ => .bind fun _ => .pure nofun

theorem makes_decorated : Makes (¬·.isExpr) (decorated b nested start) := by
  refine .bind fun _ => .bind fun c => ?_
  split
  case h_1 => exact makes_functionDef
  case h_2 => exact makes_classDef
  case h_3 => exact .ite (.bind fun _ => makes_functionDef) .fail
  case h_4 => exact .fail

theorem makes_ifStmt : Makes (¬·.isExpr) (ifStmt b nested start) :=
  .bind fun _ => .bind fun _ => .bind fun _ => .bind fun _ => .bind fun _ => .bind fun _ => .pure nofun

theorem makes_whileStmt : Makes (¬·.isExpr) (whileStmt b nested start) :=
  .bind fun _ => .bind fun _ => .bind fun _ => .bind fun _ => .bind fun _ => .pure nofun

theorem makes_forStmt : Makes (¬·.isExpr) (forStmt b nested start y) :=
  .bind fun _ => .bind fun _ => .bind fun _ => .bind fun _ => .bind fun _ => .bind fun _ => .bind fun _ =>
    .bind fun _ => .pure nofun

theorem makes_tryStmt : Makes (¬·.isExpr) (tryStmt b nested start) :=
  .bind fun _ => .bind fun _ => .bind fun _ => .bind fun _ => .bind fun _ =>
    .ite (.bind fun _ => .failAt) (.bind fun _ => .pure nofun)

theorem makes_withStmt : Makes (¬·.isExpr) (withStmt b nested start y) :=
  .bind fun _ => .bind fun _ => .bind fun _ => .bind fun _ => .bind fun _ => .pure nofun

theorem makes_asyncStmt : Makes (¬·.isExpr) (asyncStmt b nested start) := by
  refine .bind fun _ => .bind fun _ => ?_
  split
  case h_1 => exact makes_functionDef
  case h_2 => exact makes_forStmt
  case h_3 => exact makes_withStmt
  case h_4 => exact .fail

theorem makes_matchStmt : Makes (¬·.isExpr) (matchStmt b nested start) :=
  .bind fun _ => .bind fun _ => .bind fun _ => .bind fun _ => .bind fun _ => .bind fun _ =>
    .ite (.bind fun _ => .ite .failAt <| .bind fun _ => .pure nofun) .fail

theorem defers_stmtForm : Defers (∃ s ∈ ·, s.isExpr) (simpleStmts b) (stmtForm b nested) := by
  have one {p : Parser Stmt} (hp : Makes (¬·.isExpr) p) :
      Makes (¬∃ s ∈ ·, s.isExpr) (return [← p] : Parser (List Stmt)) :=
    .map hp fun s hs => by simpa using hs
  refine .here fun z => .peek fun o => ?_
  split
  case h_1 => exact .of_makes <| one makes_decorated
  case h_2 => exact .of_makes <| one makes_functionDef
  case h_3 => exact .of_makes <| one makes_classDef
  case h_4 => exact .of_makes <| one makes_ifStmt
  case h_5 => exact .of_makes <| one makes_whileStmt
  case h_6 => exact .of_makes <| one makes_forStmt
  case h_7 => exact .of_makes <| one makes_tryStmt
  case h_8 => exact .of_makes <| one makes_withStmt
  case h_9 => exact .of_makes <| one makes_asyncStmt
  case h_10 =>
    refine .bind fun c y d h => ?_
    obtain ⟨y', hy, -⟩ := startsMatch_eq b c
    cases h.symm.trans hy
    cases y
    case false => exact .inl ⟨rfl, .refl⟩
    case true => exact .inr <| one makes_matchStmt

theorem makes_simpleStmts : Makes (· ≠ []) (simpleStmts b) :=
  .bind fun _ => .bind fun _ => .bind fun _ => .pure nofun

theorem makes_stmtForm : Makes (· ≠ []) (stmtForm b nested) := by
  have one {p : Parser Stmt} : Makes (· ≠ []) (return [← p] : Parser (List Stmt)) :=
    .bind fun _ => .pure nofun
  refine .bind fun _ => .bind fun _ => ?_
  split
  case h_10 => exact .bind fun _ => .ite one makes_simpleStmts
  all_goals exact one

theorem makes_stmt (n : Nat) : Makes (· ≠ []) (stmt b n) := by
  cases n
  case zero => exact .fail
  case succ => exact makes_stmtForm

end

theorem makes_typeAlias : Makes (¬IsExpr ·) (typeAlias b) :=
  .bind fun _ => .bind fun _ => .bind fun _ => .bind fun _ => .bind fun _ => .pure nofun

theorem makes_importFrom : Makes (¬IsExpr ·) importFrom := by
  refine .bind fun _ => .bind fun _ => .bind fun _ => ?_
  split
  case h_1 => exact .bind fun _ => .ite .fail <| .bind fun _ => .bind fun _ => .pure nofun
  case h_2 => exact .ite .fail <| .bind fun _ => .bind fun _ => .pure nofun

theorem defers_smallForm : Defers IsExpr (exprStmt b) (smallForm b) := by
  refine .peek fun o => ?_
  split
  case h_1 | h_2 | h_3 => exact .of_makes <| .bind fun _ => .pure nofun
  case h_4 => exact .of_makes <| .bind fun _ => .bind fun _ => .ite (.bind fun _ => .pure nofun) (.pure nofun)
  case h_5 => exact .of_makes <| .bind fun _ => .bind fun _ => .bind fun _ => .pure nofun
  case h_6 => exact .of_makes <| .bind fun _ => .bind fun _ => .ite (.bind fun _ => .bind fun _ => .pure nofun) (.pure nofun)
  case h_7 | h_8 => exact .of_makes <| .bind fun _ => .bind fun _ => .pure nofun
  case h_9 | h_10 => exact .of_makes <| .bind fun _ => .bind fun _ => .bind fun _ => .pure nofun
  case h_11 => exact .of_makes makes_importFrom
  case h_12 =>
    refine .bind fun c y d h => ?_
    obtain ⟨y', hy, -⟩ := startsTypeAlias_eq c
    cases h.symm.trans hy
    cases y
    case false => exact .inl ⟨rfl, .refl⟩
    case true => exact .inr makes_typeAlias

theorem exprListOrYield_of_exprStmt {form : Span → Stmt} (h : exprStmt b c = .ok (form, d)) (hf : IsExpr form) :
    ∃ x, exprListOrYield b c = .ok (x, d) ∧ form = (.expr · x) := by
  obtain ⟨x, e, hx, h⟩ := ok_of_bind h
  have hd : (pure (Stmt.expr · x) : Parser (Span → Stmt)) e = .ok (form, d) := by
    refine (?_ : Defers IsExpr _ _) e form d h hf
    refine .peek fun o => ?_
    split
    case h_1 => exact .of_makes <| .bind fun _ => .ite (.bind fun _ => .pure nofun) .failAt
    case h_2 =>
      refine .accept (.bind fun _ => .bind fun _ => .bind fun _ => .pure nofun) <| .many_after .refl fun y ys => ?_
      exact .bind fun _ => .pure nofun
  cases hd
  exact ⟨x, hx, rfl⟩

theorem makes_yieldExpr : Makes (·.isYield) (yieldExpr b) :=
  .bind fun _ => .bind fun _ => .ite (.bind fun _ => .pure rfl) <| .bind fun _ =>
    .ite (.bind fun _ => .bind fun _ => .pure rfl) <| .bind fun _ => .pure rfl

theorem defers_exprListOrYield : Defers (·.isYield = false) (exprList b) (exprListOrYield b) := by
  refine .bind ?_
  rintro c y _ ⟨⟩
  cases c.kind? == some (Kind.keyword .kwYield)
  case false => exact .inl ⟨rfl, .refl⟩
  case true => exact .inr fun c x d h hx => Bool.false_ne_true (hx.symm.trans (makes_yieldExpr c x d h))

theorem exprList_of_smallStmt (h : smallStmt b c = .ok (.expr z x, d)) (hx : x.isYield = false) :
    exprList b c = .ok (x, d) := by
  obtain ⟨_, _, ⟨⟩, h⟩ := ok_of_bind h
  obtain ⟨form, e, hf, h⟩ := ok_of_bind h
  obtain ⟨_, _, ⟨⟩, h⟩ := ok_of_bind h
  change Except.ok (form (c.here.join e.previous), e) = .ok (Stmt.expr z x, d) at h
  obtain ⟨hs, rfl⟩ := Prod.mk.inj (Except.ok.inj h)
  have hz : IsExpr form := ⟨_, by rw [hs]; rfl⟩
  obtain ⟨y, hy, rfl⟩ := exprListOrYield_of_exprStmt (defers_smallForm c form e hf hz) hz
  injection hs with _ hxy
  exact defers_exprListOrYield c x e (hxy ▸ hy) hx

-- An expression and no semicolon behind it is all that stands on the line.
theorem exprList_of_simpleStmts (h : simpleStmts b c = .ok ([.expr z x], e)) (hx : x.isYield = false) :
    ∃ d, smallStmt b c = .ok (.expr z x, d) ∧ exprList b c = .ok (x, d) ∧
      (d.kind? = some (.mark .semicolon) ∨ endOfLine d = .ok ((), e)) := by
  rw [simpleStmts_eq] at h
  obtain ⟨ss, g, hl, h⟩ := ok_of_bind h
  obtain ⟨⟨⟩, _, he, h⟩ := ok_of_bind h
  cases h
  obtain ⟨s, d, hs, hl⟩ := ok_of_bind hl
  obtain ⟨more, g', hm, hl⟩ := ok_of_bind hl
  cases hl
  refine ⟨d, hs, exprList_of_smallStmt hs hx, ?_⟩
  by_cases hk : d.kind? = some (.mark .semicolon)
  case pos => exact .inl hk
  case neg =>
    have hn : nextStmt b d = .ok (none, d) := Tracks.bind_eq (Tracks.accept_eq_false hk)
    cases (many_eq_nil_iff.mp hm).symm.trans hn
    exact .inr he

theorem makes_moduleItem {p : Parser (List Stmt)} (h : Makes (· ≠ []) p) : Makes (∀ ss ∈ ·, ss ≠ []) (moduleItem p) := by
  rintro c o d hc ss rfl
  obtain ⟨e, -, ⟨⟨⟩, -⟩ | ⟨_, _, ⟨⟩, he, -⟩⟩ := moduleItem_eq_ok_iff.mp hc
  exact h e ss d he

-- The only statement is that of the only line.
theorem moduleItems_single {p : Parser (List Stmt)} (hp : Makes (· ≠ []) p) {ss : List (List Stmt)}
    (h : repeatUpTo (moduleItem p) n c = .ok (ss, e)) (hs : ss.flatten = [s]) :
    ∃ d, moduleItem p c = .ok (some [s], d) ∧ moduleItem p d = .ok (none, e) := by
  have hi := makes_moduleItem hp
  cases n
  case zero => cases h
  case succ n =>
    obtain ⟨_ | first, d, hd, h⟩ := ok_of_bind h
    case none =>
      cases h
      cases hs
    case some =>
      obtain ⟨more, _, hm, h⟩ := ok_of_bind h
      cases h
      have hf : first ≠ [] := hi c _ d hd first rfl
      rw [List.flatten_cons, List.append_eq_singleton_iff] at hs
      obtain ⟨rfl, he⟩ := hs.resolve_left fun hs => hf hs.left
      cases more
      case nil => exact ⟨d, hd, none_of_repeatUpTo hm⟩
      case cons =>
        have hn := hi.repeatUpTo n d _ _ hm _ (.head _)
        exact (hn (List.append_eq_nil_iff.mp he).left).elim

-- Statements are read up to the end of the text, where there is one.
theorem moduleItems_eof (hi : 1 < i) {ss : List (List Stmt)}
    (h : repeatUpTo (moduleItem (stmt (Below.ofDepth i) m)) n c = .ok (ss, e)) (hb : c.rest.length ≤ c.size)
    (hc : Kind.eof ∈ c.rest.map Token.kind) : e.kind? = some .eof := by
  obtain ⟨⟨w, hw, hl, -⟩, he⟩ := moduleItems_taken hi h hb
  refine he.resolve_left fun he => ?_
  obtain ⟨t, ht, hk⟩ := List.mem_map.mp hc
  rw [hw, List.head?_eq_none_iff.mp (Option.map_eq_none_iff.mp he), List.append_nil] at ht
  exact hl.within t ht hk

end Parser

theorem Token.parseExpr_of_parseModule (h : parseModule tokens = .ok ⟨[.expr z x]⟩)
    (hx : x.isYield = false) (hk : Kind.eof ∈ tokens.map Token.kind) (hn : ∀ t ∈ tokens.head?, t.kind ≠ .newline)
    (ha : Ascend OrderHom.id tokens) (hs : ∀ t ∈ tokens, t.kind = .mark .semicolon → ¬z.stop ≤ t.span.start) :
    parseExpr tokens = .ok x := by
  obtain ⟨ss, e, hr, hm⟩ := parseModule_eq_ok_iff.mp h
  obtain ⟨c₁, hi, he⟩ := Parser.moduleItems_single (Parser.makes_stmt _) hr (congrArg Module.body hm).symm
  have hc : (Cursor.ofTokens tokens).kind? ≠ some .newline := by
    intro hc
    obtain ⟨t, ht, hc⟩ := Option.map_eq_some_iff.mp hc
    exact hn t ht hc
  -- the statement is read at the beginning of the text
  obtain ⟨c₀, h₀, ⟨⟨⟩, -⟩ | ⟨_, k, ⟨⟩, hst, -⟩⟩ := Parser.moduleItem_eq_ok_iff.mp hi
  cases (Parser.skipNewlines_eq hc).symm.trans h₀
  have hst := Parser.defers_stmtForm _ _ _ hst ⟨_, .head _, rfl⟩
  obtain ⟨d, hd, hl, hsc⟩ := Parser.exprList_of_simpleStmts hst hx
  obtain ⟨hb, w, hw, -⟩ := Parser.exprList_inline hl le_rfl
  have hw' : tokens = w ++ d.rest := hw
  -- and what follows it is no semicolon
  have hend : Parser.endOfLine d = .ok ((), c₁) := by
    refine hsc.resolve_left fun hk => ?_
    obtain ⟨hda, hg⟩ := Parser.Ends.smallStmt (Below.reads_ofDepth _) (Cursor.ofTokens_ascends ha) _ d hd
    obtain ⟨t, ht, hk⟩ := Option.map_eq_some_iff.mp hk
    have ht := List.mem_of_mem_head? ht
    refine hs t (by rw [hw']; exact List.mem_append_right w ht) hk ?_
    exact hg.stop.trans ((hda.ahead t ht).apart (hk ▸ nofun))
  have hat : Parser.AtEnd c₁ := by
    have ht : tokens ≠ [] := by
      rintro rfl
      cases hk
    obtain ⟨_, hs, ⟨-, rfl, -⟩ | ⟨_, _, ⟨⟩, -⟩⟩ := Parser.moduleItem_eq_ok_iff.mp he
    exact ⟨e, hs, Parser.moduleItems_eof (Nat.succ_lt_succ <| List.length_pos_iff.mpr ht) hr le_rfl hk⟩
  exact Parser.run'_eq_ok_iff.mpr (Parser.exprForm_eq_ok_iff.mpr ⟨d, hl, (Parser.atEnd_iff hb).mpr ⟨c₁, hend, hat⟩⟩)

theorem Expr.parse_eq_ok_iff :
    parse text = .ok x ↔ ∃ tokens, Token.tokenize text = .ok tokens ∧ Token.parseExpr tokens = .ok x :=
  Token.tokenize_bind_eq_ok_iff

-- Behind the place stands a semicolon.
def SemicolonBehind (text : List Char) (z : Span) : Prop :=
  ∃ tokens, Token.tokenize text = .ok tokens ∧ ∃ t ∈ tokens, t.kind = .mark .semicolon ∧ z.stop ≤ t.span.start

-- A text that is an expression is a module of that expression alone, and the other way round.
theorem Expr.parse_agrees (text : List Char) (e : Expr) :
    (Expr.parse text = .ok e → ∃ s, Module.parse text = .ok ⟨[.expr s e]⟩) ∧
      ∀ s, Module.parse text = .ok ⟨[.expr s e]⟩ → e.isYield = false → ¬SemicolonBehind text s → Expr.parse text = .ok e := by
  constructor
  case left =>
    intro h
    obtain ⟨tokens, ht, h⟩ := parse_eq_ok_iff.mp h
    obtain ⟨s, h⟩ := Token.parseModule_of_parseExpr h
    exact ⟨s, Module.parse_eq_ok_iff.mpr ⟨tokens, ht, h⟩⟩
  case right =>
    intro s h hy hs
    obtain ⟨tokens, ht, h⟩ := Module.parse_eq_ok_iff.mp h
    obtain ⟨ks, hk, -⟩ := Token.tokenize_finished ht
    have hk : Kind.eof ∈ tokens.map Token.kind := hk ▸ List.mem_append_right ks (.head _)
    have hn := Token.tokenize_head_ne ht
    have ha := (Token.tokenize_between (f := .id) ht).ascend
    refine parse_eq_ok_iff.mpr ⟨tokens, ht, Token.parseExpr_of_parseModule h hy hk hn ha fun t hm hk hz => ?_⟩
    exact hs ⟨tokens, ht, t, hm, hk, hz⟩

-- A call of something that is named as the word for a match statement, with blank lines and comments around.
def matchCall : List Char :=
  "# a\n\nmatch (x)\n\n# b\n".toList

theorem matchCall_parse : ∃ e s, Expr.parse matchCall = .ok e ∧ Module.parse matchCall = .ok ⟨[.expr s e]⟩ ∧
    e.isYield = false ∧ ¬SemicolonBehind matchCall s := by
  have hx : (Expr.parse matchCall).toOption.bind (fun e => some e.isYield) = some false := by decide +kernel
  have ht : (Token.tokenize matchCall).toOption.bind (fun ts => some (ts.all (·.kind ≠ .mark .semicolon))) = some true := by
    decide +kernel
  obtain ⟨e, he, hy⟩ := exists_ok_of_toOption hx
  obtain ⟨tokens, ht, hk⟩ := exists_ok_of_toOption ht
  obtain ⟨s, hm⟩ := (Expr.parse_agrees matchCall e).left he
  have hs : ¬SemicolonBehind matchCall s := by
    rintro ⟨_, hu, t, hm, hs, -⟩
    cases ht.symm.trans hu
    simpa [hs] using List.all_eq_true.mp (Option.some.inj hk) t hm
  exact ⟨e, s, (Expr.parse_agrees matchCall e).right s hm (Option.some.inj hy) hs, hm, Option.some.inj hy, hs⟩

end PyVerify
