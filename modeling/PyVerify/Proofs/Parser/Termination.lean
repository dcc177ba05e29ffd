import PyVerify.Proofs.Parser.Alone
import PyVerify.Proofs.Parser.Settles.Statement

namespace PyVerify

open Token (Kind)

-- Statements are read one after the other; between them, newlines alone are passed over.
inductive Parser.Covers (stmt : Parser (List Stmt)) : Cursor → List Stmt → Cursor → Prop
  | done : Covers stmt c [] c
  | newline (hr : c.rest = t :: ts) (hk : t.kind = .newline) (h : Covers stmt (c.behind t ts) ss d) : Covers stmt c ss d
  | stmt (hs : stmt c = .ok (ss, d)) (h : Covers stmt d ss' e) : Covers stmt c (ss ++ ss') e

variable {tokens ts : List Token} {t : Token} {c d e : Cursor} {depth i n : Nat}

-- Tokens that may stand anywhere in a text.
def Ground.anywhere (tokens : List Token) : Ground where
  tokens  := tokens
  Fits _  := True
  origin  := trivial
  join    := fun _ _ => trivial
  token   := fun _ _ => trivial

-- A cursor in front of the token of this number, or behind the last one.
structure Cursor.StandsAt (tokens : List Token) (i : Nat) (c : Cursor) : Prop where
  within  : i ≤ tokens.length
  rest    : c.rest = tokens.drop i
  roomy   : tokens.length ≤ c.size

theorem Cursor.StandsAt.abreast (h : c.StandsAt tokens i) (hn : tokens.length - i < n) : Abreast (.anywhere tokens) n c c where
  same      := ⟨c.size, rfl⟩
  ahead     := h.rest ▸ List.drop_suffix i tokens
  fewer     := by rwa [h.rest, List.length_drop]
  roomy     := h.roomy
  roomier   := h.roomy
  previous  := trivial
  last      := trivial

theorem Abreast.standsAt {g : Ground} (h : Abreast g n c d) : c.StandsAt g.tokens (g.tokens.length - c.rest.length) where
  within  := Nat.sub_le ..
  rest    := List.suffix_iff_eq_drop.mp h.ahead
  roomy   := h.roomy

namespace Parser

-- What the rules for statements and expressions are read by.
inductive Production (b : Below) (stmt : Parser (List Stmt)) : {α : Type} → Parser α → Prop
  | statement                       : Production b stmt (stmtForm b stmt)
  | decorated (start)               : Production b stmt (decorated b stmt start)
  | functionDef (start ds a)        : Production b stmt (functionDef b stmt start ds a)
  | classDef (start ds)             : Production b stmt (classDef b stmt start ds)
  | ifStmt (start)                  : Production b stmt (ifStmt b stmt start)
  | branch                          : Production b stmt (branch b stmt)
  | whileStmt (start)               : Production b stmt (whileStmt b stmt start)
  | forStmt (start a)               : Production b stmt (forStmt b stmt start a)
  | tryStmt (start)                 : Production b stmt (tryStmt b stmt start)
  | handler (wanted)                : Production b stmt (handler b stmt wanted)
  | withStmt (start a)              : Production b stmt (withStmt b stmt start a)
  | withItem                        : Production b stmt (withItem b)
  | asyncStmt (start)               : Production b stmt (asyncStmt b stmt start)
  | matchStmt (start)               : Production b stmt (matchStmt b stmt start)
  | matchCase                       : Production b stmt (matchCase b stmt)
  | body                            : Production b stmt (body b stmt)
  | suite                           : Production b stmt (suite b stmt)
  | simpleStmts                     : Production b stmt (simpleStmts b)
  | smallStmt                       : Production b stmt (smallStmt b)
  | exprStmt                        : Production b stmt (exprStmt b)
  | typeAlias                       : Production b stmt (typeAlias b)
  | importFrom                      : Production b stmt importFrom
  | exprListOrYield                 : Production b stmt (exprListOrYield b)
  | yieldExpr                       : Production b stmt (yieldExpr b)
  | exprList                        : Production b stmt (exprList b)
  | targetList                      : Production b stmt (targetList b)
  | starOrNamed                     : Production b stmt (starOrNamed b)
  | starred                         : Production b stmt (starred b)
  | namedTest                       : Production b stmt (namedTest b)
  | test                            : Production b stmt (test b)
  | lambda                          : Production b stmt (lambda b)
  | orTest                          : Production b stmt (orTest b)
  | andTest                         : Production b stmt (andTest b)
  | notTest                         : Production b stmt (notTest b)
  | comparison                      : Production b stmt (comparison b)
  | bitOr                           : Production b stmt (bitOr b)
  | bitXor                          : Production b stmt (bitXor b)
  | bitAnd                          : Production b stmt (bitAnd b)
  | shift                           : Production b stmt (shift b)
  | arith                           : Production b stmt (arith b)
  | term                            : Production b stmt (term b)
  | factor                          : Production b stmt (factor b)
  | power                           : Production b stmt (power b)
  | awaited                         : Production b stmt (awaited b)
  | primary                         : Production b stmt (primary b)
  | atom                            : Production b stmt (atom b)
  | parenAtom (start)               : Production b stmt (parenAtom b start)
  | listAtom (start)                : Production b stmt (listAtom b start)
  | braceAtom (start)               : Production b stmt (braceAtom b start)
  | subscriptList                   : Production b stmt (subscriptList b)
  | subscriptItem                   : Production b stmt (subscriptItem b)

section

variable {α : Type} {b : Below} {stmt : Parser (List Stmt)} {p : Parser α}

theorem Production.settles (hp : Production b stmt p) (h : b.Settles (.anywhere tokens) depth b)
    (hs : ∀ k ≤ depth - 1, SettlesStep (.anywhere tokens) k stmt stmt) (hn : n ≤ depth) : SettlesStep (.anywhere tokens) n p p := by
  have hm : n ≤ depth + 1 := Nat.le_succ_of_le hn
  cases hp
  case statement        => exact .stmtForm h hs hn
  case decorated        => exact .decorated h hs hn
  case functionDef      => exact .functionDef h hs hn
  case classDef         => exact .classDef h hs hn
  case ifStmt           => exact .ifStmt h hs hn
  case branch           => exact .branch h hs hn
  case whileStmt        => exact .whileStmt h hs hn
  case forStmt          => exact .forStmt h hs hn
  case tryStmt          => exact .tryStmt h hs hn trivial
  case handler          => exact .handler h hs hn
  case withStmt         => exact .withStmt h hs hn
  case withItem         => exact .withItem h hn
  case asyncStmt        => exact .asyncStmt h hs hn
  case matchStmt        => exact .matchStmt h hs hn trivial
  case matchCase        => exact .matchCase h hs hn
  case body             => exact .body h hs hn
  case suite            => exact .suite h hs hn
  case simpleStmts      => exact .simpleStmts h hn
  case smallStmt        => exact .smallStmt h hn
  case exprStmt         => exact .exprStmt h hn
  case typeAlias        => exact .typeAlias h hn
  case importFrom       => exact .importFrom
  case exprListOrYield  => exact (Settles.exprListOrYield h hn).any
  case yieldExpr        => exact (Settles.yieldExpr h hm).any
  case exprList         => exact (Settles.exprList h hn).any
  case targetList       => exact (Settles.targetList h hn).any
  case starOrNamed      => exact (Settles.starOrNamed h hn).any
  case starred          => exact (Settles.starred h hm).any
  case namedTest        => exact (Settles.namedTest h hn).any
  case test             => exact (Settles.test h hm).any
  case lambda           => exact (Settles.lambda h hm).any
  case orTest           => exact (Settles.orTest h hm).any
  case andTest          => exact (Settles.andTest h hm).any
  case notTest          => exact (Settles.notTest h hm).any
  case comparison       => exact (Settles.comparison h hm).any
  case bitOr            => exact (Settles.bitOr h hm).any
  case bitXor           => exact (Settles.bitXor h hm).any
  case bitAnd           => exact (Settles.bitAnd h hm).any
  case shift            => exact (Settles.shift h hm).any
  case arith            => exact (Settles.arith h hm).any
  case term             => exact (Settles.term h hm).any
  case factor           => exact (Settles.factor h hm).any
  case power            => exact (Settles.power h hm).any
  case awaited          => exact (Settles.awaited h hm).any
  case primary          => exact (Settles.primary h hm).any
  case atom             => exact (Settles.atom h hm).any
  case parenAtom        => exact (Settles.parenAtom h hn trivial).any
  case listAtom         => exact (Settles.listAtom h hn trivial).any
  case braceAtom        => exact (Settles.braceAtom h hn trivial).any
  case subscriptList    => exact (Settles.subscriptList h hn).any
  case subscriptItem    => exact (Settles.subscriptItem h hn).any

-- From a place of the list, a parser goes on in the list where it succeeds, and does not fail for want of depth.
structure Advances (tokens : List Token) (i : Nat) (c : Cursor) (p : Parser α) : Prop where
  further : ∀ a d, p c = .ok (a, d) → ∃ j, i < j ∧ d.StandsAt tokens j
  deep    : ∀ e, p c = .error e → e.cause ≠ .tooDeep

theorem SettlesStep.advances (h : SettlesStep (.anywhere tokens) (tokens.length - i + 1) p p) (hc : c.StandsAt tokens i) :
    Advances tokens i c p where
  further _ d hp := by
    have hd := h.of_ok (hc.abreast (Nat.lt_succ_self _)) hp
    have hl : d.rest.length < tokens.length - i := hd.fewer
    have hs : d.StandsAt tokens (tokens.length - d.rest.length) := hd.standsAt
    exact ⟨_, by omega, hs⟩
  deep _ hp := (h.of_error (hc.abreast (Nat.lt_succ_self _)) hp).left

theorem Production.advances (hp : Production (.ofDepth depth) (Parser.stmt (.ofDepth depth) depth) p) (hc : c.StandsAt tokens i)
    (hd : tokens.length - i < depth) : Advances tokens i c p := by
  have hb : (Below.ofDepth depth).Settles (.anywhere tokens) depth (.ofDepth depth) := .ofDepth le_rfl le_rfl
  refine SettlesStep.advances (hp.settles hb (fun k hk => ?_) hd) hc
  have hk : k ≤ depth := hk.trans (Nat.sub_le ..)
  exact .stmt hb hk hk hk

theorem Covers.newlines {ss : List Stmt} {us : List Unit} (h : Covers stmt d ss e) (hr : repeatUpTo newline? n c = .ok (us, d)) :
    Covers stmt c ss e := by
  induction n generalizing c us
  case zero => cases hr
  case succ n hi =>
    obtain ⟨o, c', hn, hr⟩ := ok_of_bind hr
    obtain hc | ⟨t, ts, hc, hk, hb⟩ := newline?_cases c
    case inl =>
      cases hn.symm.trans hc
      cases hr
      exact h
    case inr =>
      cases hn.symm.trans hb
      obtain ⟨_, _, hr, ⟨⟩⟩ := ok_of_bind hr
      exact .newline hc hk (hi hr)

theorem Covers.skipNewlines {ss : List Stmt} {u : Unit} (h : Covers stmt d ss e) (hs : skipNewlines c = .ok (u, d)) :
    Covers stmt c ss e := by
  obtain ⟨_, _, hr, ⟨⟩⟩ := ok_of_bind hs
  exact h.newlines hr

theorem Covers.of_items {ss : List (List Stmt)} (h : repeatUpTo (moduleItem stmt) n c = .ok (ss, d)) :
    Covers stmt c ss.flatten d ∧ (d.rest = [] ∨ d.kind? = some .eof) := by
  induction n generalizing c ss
  case zero => cases h
  case succ n hi =>
    obtain ⟨o, e, hm, h⟩ := ok_of_bind h
    obtain ⟨e', hs, ⟨rfl, rfl, hk⟩ | ⟨ss, -, rfl, hp, -⟩⟩ := moduleItem_eq_ok_iff.mp hm
    case inl =>
      cases h
      refine ⟨.skipNewlines .done hs, hk.imp_left fun hk => ?_⟩
      exact List.head?_eq_none_iff.mp <| Option.map_eq_none_iff.mp hk
    case inr =>
      obtain ⟨more, _, hr, ⟨⟩⟩ := ok_of_bind h
      obtain ⟨hc, hd⟩ := hi hr
      exact ⟨.skipNewlines (.stmt hp hc) hs, hd⟩

theorem Covers.of_moduleForm {m : Module} (h : moduleForm stmt c = .ok (m, d)) :
    Covers stmt c m.body d ∧ (d.rest = [] ∨ d.kind? = some .eof) := by
  obtain ⟨ss, _, hr, ⟨⟩⟩ := ok_of_bind h
  exact of_items hr

end
end Parser

namespace Token

section

variable {α : Type} {p : Below → Nat → Parser α}

-- What a parser comes to on a list of tokens when it may go so deep, and repeat something so often.
def parseWithin (tokens : List Token) (depth rounds : Nat) (p : Below → Nat → Parser α) : Except SyntaxError α :=
  (p (Below.ofDepth depth) depth).run' { Cursor.ofTokens tokens with size := rounds }

-- The parser comes to an end with a result or an error. Neither depth nor rounds run out before, so that more of them
-- lead to the same.
structure Halts (tokens : List Token) (p : Below → Nat → Parser α) (r : Except SyntaxError α) : Prop where
  same : ∀ depth > tokens.length, ∀ rounds ≥ tokens.length, parseWithin tokens depth rounds p = r
  deep : ∀ e, r = .error e → e.cause ≠ .tooDeep

theorem halts_of_settles {V : α → Prop} {l : α → Nat} (h : ∀ i j, tokens.length < i → tokens.length < j →
    Parser.Settles (.anywhere tokens) (tokens.length + 1) V l (p (.ofDepth i) i) (p (.ofDepth j) j)) : Halts tokens p (parse tokens p) where
  same depth hd _ hr := (h _ depth (Nat.lt_succ_self _) hd).run'_eq hr
  deep _ he          := ((h _ _ (Nat.lt_succ_self _) (Nat.lt_succ_self _)).of_run'_eq_error he).left

end

-- Whatever the tokens are, the parser comes to an end, each rule for a statement or an expression goes on in the list, and
-- the statements of a module and newlines are all that stands before the end of the text.
theorem parser_terminates (tokens : List Token) :
    (Halts tokens (fun b depth => Parser.moduleForm (Parser.stmt b depth)) (parseModule tokens) ∧
      Halts tokens (fun b _ => b.test) (parseTest tokens) ∧ Halts tokens (fun b _ => Parser.exprForm b) (parseExpr tokens)) ∧
    (∀ {α : Type} (depth i : Nat) (c : Cursor) (p : Parser α), c.StandsAt tokens i → tokens.length - i < depth →
      Parser.Production (.ofDepth depth) (Parser.stmt (.ofDepth depth) depth) p → Parser.Advances tokens i c p) ∧
    (∀ depth c, ∃ x, Parser.startsMatch (.ofDepth depth) c = .ok (x, c)) ∧
    ∀ m, parseModule tokens = .ok m → ∃ i d, d.StandsAt tokens i ∧ (d.rest = [] ∨ d.kind? = some .eof) ∧
      Parser.Covers (Parser.stmt (.ofDepth (tokens.length + 1)) (tokens.length + 1)) (.ofTokens tokens) m.body d := by
  have hb {i j} (hi : tokens.length < i) (hj : tokens.length < j) :
      (Below.ofDepth i).Settles (.anywhere tokens) (tokens.length + 1) (.ofDepth j) := .ofDepth hi hj
  have hm {i j} (hi : tokens.length < i) (hj : tokens.length < j) : Parser.Settles (.anywhere tokens) (tokens.length + 1) _ _
      (Parser.moduleForm (Parser.stmt (.ofDepth i) i)) (Parser.moduleForm (Parser.stmt (.ofDepth j) j)) :=
    .moduleForm fun k hk => .stmt (hb hi hj) hk (hk.trans hi) (hk.trans hj)
  refine ⟨⟨?module, ?test, ?expr⟩, fun _ _ _ _ hc hd hp => hp.advances hc hd, fun _ c => ?look, fun m h => ?covers⟩
  case module => exact halts_of_settles fun _ _ => hm
  case test   => exact halts_of_settles fun _ _ hi hj => (hb hi hj).test _ le_rfl
  case expr   => exact halts_of_settles fun _ _ hi hj => .exprForm (hb hi hj) le_rfl
  case look =>
    obtain ⟨x, h, -⟩ := Parser.startsMatch_eq _ c
    exact ⟨x, h⟩
  case covers =>
    obtain ⟨d, h⟩ := Parser.run'_eq_ok_iff.mp h
    obtain ⟨hc, he⟩ := Parser.Covers.of_moduleForm h
    have hl := (hm (Nat.lt_succ_self _) (Nat.lt_succ_self _)).of_ok (.ofTokens le_rfl) h
    exact ⟨_, d, hl.standsAt, he, hc⟩

-- A statement and the end of its line, without the end of the text.
def unended : List Token :=
  [⟨.name "x", ⟨0, 1⟩⟩, ⟨.newline, ⟨1, 1⟩⟩]

theorem parser_terminates_unended : ∃ m d, parseModule unended = .ok m ∧ m.body ≠ [] ∧ (d.rest = [] ∨ d.kind? = some .eof) ∧
    Parser.Covers (Parser.stmt (.ofDepth 3) 3) (.ofTokens unended) m.body d := by
  have hm : (parseModule unended).toOption.bind (fun m => some m.body.isEmpty) = some false := by decide +kernel
  obtain ⟨m, hm, hb⟩ := exists_ok_of_toOption hm
  obtain ⟨_, d, -, he, hc⟩ := (parser_terminates unended).right.right.right m hm
  exact ⟨m, d, hm, by simpa using hb, he, hc⟩

end Token
end PyVerify
