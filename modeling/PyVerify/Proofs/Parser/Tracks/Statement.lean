import PyVerify.Proofs.Parser.Tracks.LookAhead
import PyVerify.Proofs.Parser.Tracks.Pattern

namespace PyVerify

open Token (Kind Keyword Mark)

-- Pairs of places in two token lists that parsers can be run at side by side: within a line, and between the lines of
-- a block, by the number of blocks around it. Where the first list ends, the second may go on with a new statement.
structure Frame (f g : Recasting) where
  line      : Nat → Bridge f g
  block     : Nat → Cursor → Cursor → Prop
  words     : ∀ {n m a c d}, (line n).rel m a c d →
    ((Token.line c.rest).map fun t => t.kind.recast f) = (Token.line d.rest).map fun t => t.kind.recast g
  newline   : ∀ {n a c d t u ts us}, (line n).rel 0 a c d → c.rest = t :: ts → d.rest = u :: us → t.kind = .newline →
    block n (c.behind t ts) (d.behind u us)
  stop      : ∀ {n c d k}, (line n).rel 0 true c d → c.kind? = some k → k = .eof ∨ k = .dedent → block n c d
  enter     : ∀ {n c d}, block n c d → c.kind? ≠ some .eof → (line n).rel 0 false c d
  ahead     : ∀ {n c d}, block n c d → Heads f g c d ∨
    n = 0 ∧ c.kind? = some .eof ∧ ∀ k, d.kind? = some k → k.isClause = false ∧ k ≠ .newline ∧ k ≠ .indent
  clause    : ∀ {n c d t u ts us}, block n c d → c.rest = t :: ts → d.rest = u :: us → t.kind.isClause →
    (line n).rel 0 true (c.behind t ts) (d.behind u us)
  skip      : ∀ {n c d t u ts us}, block n c d → c.rest = t :: ts → d.rest = u :: us → t.kind = .newline →
    block n (c.behind t ts) (d.behind u us)
  indent    : ∀ {n c d t u ts us}, block n c d → c.rest = t :: ts → d.rest = u :: us → t.kind = .indent →
    block (n + 1) (c.behind t ts) (d.behind u us)
  dedent    : ∀ {n c d t u ts us}, block (n + 1) c d → c.rest = t :: ts → d.rest = u :: us → t.kind = .dedent →
    block n (c.behind t ts) (d.behind u us)
  eof       : ∀ {n c d}, block (n + 1) c d → c.kind? = some .eof → block n c d
  previous  : ∀ {n c d}, block n c d → f.place c.previous = g.place d.previous
  size      : ∀ {n c d}, block n c d → c.size ≤ d.size

variable {f g : Recasting} {F : Frame f g} {b b' : Below} {stmt stmt' : Parser (List Stmt)} {n : Nat} {a : Bool} {start start' : Span}
variable {c d : Cursor} {k : Kind}

namespace Frame

theorem kind?_iff (h : F.block n c d) (hk : k.isClause ∨ k = .newline ∨ k = .indent) : c.kind? = some k ↔ d.kind? = some k := by
  obtain ha | ⟨-, hc, hd⟩ := F.ahead h
  case inl =>
    refine ha.kind?_eq_some_iff ?_
    obtain hk | rfl | rfl := hk
    case inl        => cases k <;> first | rfl | cases hk
    case inr.inl    => rfl
    case inr.inr    => rfl
  case inr =>
    refine iff_of_false (fun hk' => ?_) fun hk' => ?_
    case refine_1 =>
      cases hc.symm.trans hk'
      obtain hk | hk | hk := hk <;> cases hk
    case refine_2 =>
      obtain ⟨hn, hl, hi⟩ := hd k hk'
      obtain hk | hk | hk := hk
      case inl      => exact absurd hk (by simp [hn])
      case inr.inl  => exact hl hk
      case inr.inr  => exact hi hk

theorem heads_of_succ (h : F.block (n + 1) c d) : Heads f g c d :=
  (F.ahead h).resolve_right nofun

end Frame

namespace Parser

-- The parsers for what is nested in a statement.
structure Follows (F : Frame f g) (b b' : Below) (stmt stmt' : Parser (List Stmt)) : Prop where
  below   : ∀ n, b.Tracks (F.line n) b'
  simple  : ∀ n a, Tracks ((F.line n).rel 0 a) (Same f g) (F.block n) (simpleStmts b) (simpleStmts b')
  stmt    : ∀ n, Tracks ((F.line n).rel 0 false) (Same f g) (F.block n) stmt stmt'

-- A line ends before layout.
theorem endOfLine_layout {c e : Cursor} {u : Unit} (h : endOfLine c = .ok (u, e)) : ∀ k, c.kind? = some k → k.isLayout := by
  intro k hk
  by_contra hl
  have hn {l : Kind} (h : l.isLayout) : c.kind? ≠ some l := by
    rintro he
    cases hk.symm.trans he
    exact hl h
  have isAt_eq {l : Kind} (h : l.isLayout) : isAt l c = .ok (false, c) := by
    change Except.ok (c.kind? == some l, c) = _
    rw [beq_eq_false_iff_ne.mpr (hn h)]
  unfold endOfLine at h
  rw [Tracks.bind_eq <| Tracks.accept_eq_false <| hn rfl, if_neg Bool.false_ne_true, Tracks.bind_eq <| isAt_eq rfl,
    Tracks.bind_eq <| isAt_eq rfl] at h
  cases h

namespace Tracks

variable {α β : Type} {V : α → β → Prop} {S : Cursor → Cursor → Prop} {p p' : Parser α} {q q' : Parser β}

theorem skipNewlines : Tracks (F.block n) (fun _ _ => True) (F.block n) Parser.skipNewlines Parser.skipNewlines := by
  have step : Tracks (F.block n) (Same f g) (F.block n) (do if ← Parser.accept .newline then return some () else return none)
      (do if ← Parser.accept .newline then return some () else return none) :=
    .acceptOf (fun _ _ h => F.kind?_iff h <| .inr <| .inl rfl) F.skip (.pure rfl) (.pure rfl)
  exact .bind (.many step fun _ _ => F.size) fun _ _ _ => .pure trivial

theorem expectNewline : Tracks ((F.line n).rel 0 a) (Kin f g) (F.block n) (Parser.expect .newline) (Parser.expect .newline) :=
  .expectOf rfl (fun _ _ => (F.line n).head) F.newline

theorem endOfLine : Tracks ((F.line n).rel 0 true) (fun _ _ => True) (F.block n) Parser.endOfLine Parser.endOfLine := by
  refine .acceptOf (fun _ _ h => ((F.line n).head h).kind?_eq_some_iff rfl) F.newline (.pure trivial) <| .isAtThen rfl ?_ <| .isAtThen rfl ?_ ?_
  case refine_1 =>
    refine .bind (.isAtAhead rfl) fun x y hx => .ite (by rw [hx]) ?_ .fail
    exact .before (.pure trivial) fun _ _ h => F.stop h.left h.right <| .inl rfl
  case refine_2 => exact .ite rfl (.before (.pure trivial) fun _ _ h => F.stop h.left h.right <| .inr rfl) .fail
  case refine_3 => exact .fail

theorem simpleStmts {i j : Nat} (hi : 1 < i) (hj : i ≤ j) : Tracks ((F.line n).rel 0 a) (Same f g) (F.block n)
    (Parser.simpleStmts (Below.ofDepth i)) (Parser.simpleStmts (Below.ofDepth j)) := by
  rw [simpleStmts_eq, simpleStmts_eq]
  refine TracksTo.tracks <| .bind (.lineStmts hi hj) (fun ss ss' hss => Tracks.to <| .bind endOfLine fun _ _ _ => .pure hss) ?_
  intro ss c r e h _ x hx
  obtain ⟨_, _, he, -⟩ := ok_of_bind h
  have hl := endOfLine_layout he _ hx
  cases hl

-- Blocks.

theorem clauseIs (hk : k.isClause) {l : Bool → Parser α} {l' : Bool → Parser β}
    (ht : Tracks (Ahead (some k) (F.block n)) V S (l true) (l' true)) (hf : Tracks (F.block n) V S (l false) (l' false)) :
    Tracks (F.block n) V S (Parser.isAt k >>= l) (Parser.isAt k >>= l') :=
  .isAtOf (fun _ _ h => F.kind?_iff h <| .inl hk) ht <| hf.before fun _ _ => And.left

-- A clause of the statement before, behind its word.
theorem clause (hk : k.isClause) [Recast α] (hp : Tracks ((F.line n).rel 0 true) (Same f g) (F.block n) p p') :
    Tracks (F.block n) (Same f g) (F.block n) (Parser.after k p) (Parser.after k p') := by
  refine .acceptOf (fun _ _ h => F.kind?_iff h <| .inl hk) (fun h hr hr' ht => F.clause h hr hr' <| ht ▸ hk) ?_ (.pure rfl)
  exact .bind hp fun x y hx => .pure <| by simp_all

theorem clauseWord (hk : k.isClause) {l : Token → Parser α} {l' : Token → Parser β}
    (h : ∀ t u, Kin f g t u → Tracks ((F.line n).rel 0 true) V S (l t) (l' u)) :
    Tracks (Ahead (some k) (F.block n)) V S (Parser.next >>= l) (Parser.next >>= l') := by
  refine .nextOf (fun c d hs => ?_) fun t u ht => (h t u ht).before ?_
  case refine_1 =>
    obtain ha | ⟨-, hc, -⟩ := F.ahead hs.left
    case inl => exact ha
    case inr =>
      cases hc.symm.trans hs.right
      cases hk
  case refine_2 =>
    rintro _ _ ⟨c, d, ts, us, hs, hr, hr', rfl, rfl⟩
    have ht : t.kind = k := by simpa [Cursor.kind?, hr] using hs.right
    exact F.clause hs.left hr hr' <| ht ▸ hk

end Tracks

-- The next item of a block, unless the block ends.
def blockItem {α : Type} (item : Parser α) : Parser (Option α) := do
  skipNewlines
  if ← accept .dedent then return none
  else if ← isAt .eof then return none
  else return some (← item)

theorem repeatUpTo_blockItem {α : Type} (item : Parser α) (m : Nat) : repeatUpTo (blockItem item) (m + 1) = do
    skipNewlines
    if ← accept .dedent then return []
    else if ← isAt .eof then return []
    else
      let a ← item
      return a :: (← repeatUpTo (blockItem item) m) := by
  simp only [repeatUpTo, blockItem, bind_assoc]
  refine bind_congr fun _ => bind_congr fun x => ?_
  cases x
  case true => rfl
  case false =>
    simp only [Bool.false_eq_true, if_false, bind_assoc]
    refine bind_congr fun y => ?_
    cases y
    case true   => rfl
    case false  => simp

namespace Tracks

variable {α : Type} [Recast α] {item item' : Parser α} {i j : Nat}

theorem blockItems (h : Tracks ((F.line (n + 1)).rel 0 false) (Same f g) (F.block (n + 1)) item item') :
    Tracks (F.block (n + 1)) (Same f g) (F.block n) (Parser.blockItems item) (Parser.blockItems item') := by
  have items {m m' : Nat} (hm : m ≤ m') : Tracks (F.block (n + 1)) (Same f g) (F.block n)
      (Parser.repeatUpTo (blockItem item) m) (Parser.repeatUpTo (blockItem item') m') := by
    induction m generalizing m'
    case zero => exact .fail
    case succ m hi =>
      obtain ⟨m', rfl⟩ := Nat.exists_eq_add_of_le' (Nat.lt_of_lt_of_le m.succ_pos hm)
      rw [repeatUpTo_blockItem, repeatUpTo_blockItem]
      refine .bind skipNewlines fun _ _ _ => .acceptOf (fun _ _ h => F.heads_of_succ h |>.kind?_eq_some_iff rfl) F.dedent (.pure rfl) ?_
      refine .isAtOf (fun _ _ h => F.heads_of_succ h |>.kind?_eq_some_iff rfl) (.before (.pure rfl) fun _ _ h => F.eof h.left h.right) ?_
      refine .bind (h.before fun _ _ h => F.enter h.left h.right) fun x x' hx => .bind (hi <| Nat.le_of_succ_le_succ hm) fun xs xs' hxs => .pure ?_
      simp_all
  refine .get fun c d hs => (items <| Nat.succ_le_succ <| F.size hs).before ?_
  rintro _ _ ⟨rfl, rfl⟩
  exact hs

-- A block on lines of its own.
theorem indented (h : Tracks ((F.line (n + 1)).rel 0 false) (Same f g) (F.block (n + 1)) item item') {β : Type} {V : β → β → Prop}
    {k k' : List α → Parser β} (hk : ∀ as bs, Same f g as bs → Tracks (F.block n) V (F.block n) (k as) (k' bs))
    {cause : SyntaxError.Cause} :
    Tracks (F.block n) V (F.block n)
      (do
        Parser.skipNewlines
        if ← Parser.accept .indent then k (← Parser.blockItems item) else Parser.fail cause)
      (do
        Parser.skipNewlines
        if ← Parser.accept .indent then k' (← Parser.blockItems item') else Parser.fail cause) :=
  .bind skipNewlines fun _ _ _ => .acceptOf (fun _ _ h => F.kind?_iff h <| .inr <| .inr rfl) F.indent (.bind (blockItems h) hk) .fail

theorem suite (h : Follows F b b' stmt stmt') :
    Tracks ((F.line n).rel 0 a) (Same f g) (F.block n) (Parser.suite b stmt) (Parser.suite b' stmt') := by
  refine .acceptOf (fun _ _ h => ((F.line n).head h).kind?_eq_some_iff rfl) F.newline ?_ (h.simple n a)
  refine indented (h.stmt (n + 1)) fun ss ss' hss => .pure ?_
  simp_all

theorem body (h : Follows F b b' stmt stmt') :
    Tracks ((F.line n).rel 0 a) (Same f g) (F.block n) (Parser.body b stmt) (Parser.body b' stmt') :=
  .bind (.expect .colon) fun _ _ _ => suite h

theorem optionalBody (h : Follows F b b' stmt stmt') {word : Keyword} (hw : (word : Kind).isClause) :
    Tracks (F.block n) (Same f g) (F.block n) (Parser.optionalBody b stmt word) (Parser.optionalBody b' stmt' word) := by
  refine .bind (clause hw <| body h) fun o o' ho => .pure ?_
  cases o <;> cases o' <;> simp_all

-- The span up to the end of a block.
theorem upToHere {α β : Type} {V : α → β → Prop} {S : Cursor → Cursor → Prop} {l : Span → Parser α} {l' : Span → Parser β}
    (h : ∀ z w, f.place z = g.place w → Tracks (F.block n) V S (l z) (l' w)) :
    Tracks (F.block n) V S (Parser.previous >>= l) (Parser.previous >>= l') :=
  fun c d hs => h _ _ (F.previous hs) c d hs

theorem functionDef (h : Follows F b b' stmt stmt') (hz : f.place start = g.place start') {ds ds' : List Expr} (hds : Same f g ds ds')
    {isAsync : Bool} : Tracks ((F.line n).rel 0 a) (Same f g) (F.block n)
      (Parser.functionDef b stmt start ds isAsync) (Parser.functionDef b' stmt' start' ds' isAsync) := by
  have hb := h.below n
  refine .bind (.expect <| .plain rfl) fun _ _ _ => .bind .ident fun i i' hi => .bind (.expect <| .opens rfl) fun _ _ _ => ?_
  refine .bind (params hb rfl) fun ps ps' hps => .bind (.expect <| .closes rfl) fun _ _ _ => ?_
  refine .bind (.after (.plain rfl) <| hb.test 0 true) fun o o' ho => .bind (body h) fun ss ss' hss => .upToHere fun w w' hw => .pure ?_
  simp_all

theorem classDef (h : Follows F b b' stmt stmt') (hz : f.place start = g.place start') {ds ds' : List Expr} (hds : Same f g ds ds') :
    Tracks ((F.line n).rel 0 a) (Same f g) (F.block n)
      (Parser.classDef b stmt start ds) (Parser.classDef b' stmt' start' ds') := by
  have hb := h.below n
  refine .bind (.expect <| .plain rfl) fun _ _ _ => .bind .ident fun i i' hi => ?_
  refine .bind (.after (.opens rfl) <| .bind (arguments hb) fun s s' hs => .bind (.expect <| .closes rfl) fun _ _ _ => .pure hs) ?_
  refine fun o o' ho => .bind (body h) fun ss ss' hss => .upToHere fun w w' hw => .pure ?_
  cases o <;> cases o' <;> simp_all

theorem whileStmt (h : Follows F b b' stmt stmt') (hz : f.place start = g.place start') :
    Tracks ((F.line n).rel 0 a) (Same f g) (F.block n) (Parser.whileStmt b stmt start) (Parser.whileStmt b' stmt' start') := by
  refine .bind (.expect <| .plain rfl) fun _ _ _ => .bind (namedTest (h.below n) 0 true) fun e e' he => .bind (body h) fun ss ss' hss => ?_
  refine .bind (optionalBody h rfl) fun os os' hos => .upToHere fun w w' hw => .pure ?_
  simp_all

theorem forStmt (h : Follows F b b' stmt stmt') (hz : f.place start = g.place start') {isAsync : Bool} :
    Tracks ((F.line n).rel 0 a) (Same f g) (F.block n) (Parser.forStmt b stmt start isAsync) (Parser.forStmt b' stmt' start' isAsync) := by
  have hb := h.below n
  refine .bind (.expect <| .plain rfl) fun _ _ _ => .bind (targetList hb 0 true) fun e e' he => .bind (checkTarget he) fun _ _ _ => ?_
  refine .bind (.expect <| .plain rfl) fun _ _ _ => .bind (exprList hb 0 true) fun i i' hi => .bind (body h) fun ss ss' hss => ?_
  refine .bind (optionalBody h rfl) fun os os' hos => .upToHere fun w w' hw => .pure ?_
  simp_all

theorem withItem (h : b.Tracks (F.line n) b') : Operand (F.line n) (Parser.withItem b) (Parser.withItem b') := by
  intro m a
  refine .bind (h.test m a) fun e e' he => .bind (.after (.plain rfl) <| .bind (h.bitOr m true) fun t t' ht => ?_) fun o o' ho => .pure ?_
  case refine_1 => exact .bind (checkTarget ht) fun _ _ _ => .pure ht
  case refine_2 => simp_all

theorem withStmt (h : Follows F b b' stmt stmt') (hz : f.place start = g.place start') {isAsync : Bool} :
    Tracks ((F.line n).rel 0 a) (Same f g) (F.block n) (Parser.withStmt b stmt start isAsync) (Parser.withStmt b' stmt' start' isAsync) := by
  have hi := withItem (h.below n)
  refine .bind (.expect <| .plain rfl) fun _ _ _ => .bind (hi 0 true) fun i i' hi' => .bind (.commaTail .never <| hi 0 true) fun is is' his => ?_
  refine .bind (body h) fun ss ss' hss => .upToHere fun w w' hw => .pure ?_
  simp_all

theorem asyncStmt (h : Follows F b b' stmt stmt') (hz : f.place start = g.place start') :
    Tracks ((F.line n).rel 0 a) (Same f g) (F.block n) (Parser.asyncStmt b stmt start) (Parser.asyncStmt b' stmt' start') := by
  refine .bind (.expect <| .plain rfl) fun _ _ _ => .peek (fun o ho => ?_) fun _ _ _ => .fail
  split
  case h_1 => exact .seen <| functionDef h hz .nil
  case h_2 => exact .seen <| forStmt h hz
  case h_3 => exact .seen <| withStmt h hz
  case h_4 => exact .fail

-- Conditionals.

theorem clauses (hk : k.isClause) {step step' : Parser (Option α)}
    (h : Tracks (Ahead (some k) (F.block n)) (Same f g) (F.block n) step step') : Tracks (F.block n) (Same f g) (F.block n)
      (Parser.many do if ← Parser.isAt k then step else return none) (Parser.many do if ← Parser.isAt k then step' else return none) :=
  .many (clauseIs hk h <| .pure rfl) fun _ _ => F.size

theorem branch (h : Follows F b b' stmt stmt') :
    Tracks (Ahead (some <| .keyword .kwElif) (F.block n)) (Same f g) (F.block n) (Parser.branch b stmt) (Parser.branch b' stmt') := by
  refine .clauseWord rfl fun t u ht => .bind (namedTest (h.below n) 0 true) fun e e' he => .bind (body h) fun ss ss' hss => .pure ?_
  simp_all [ht.span]

theorem recast_nested (f : Recasting) (stop : Span) (branches : List (Span × Expr × List Stmt)) (orelse : List Stmt) :
    (branches.foldr (fun (word, test, body) orelse => [Stmt.if (word.join stop) test body orelse]) orelse).map (Stmt.recast f) =
      (branches.map (Recast.recast f)).foldr (fun (word, test, body) orelse => [Stmt.if (word.join <| f.place stop) test body orelse])
        (orelse.map (Stmt.recast f)) := by
  induction branches <;> simp_all

theorem ifStmt (h : Follows F b b' stmt stmt') (hz : f.place start = g.place start') :
    Tracks ((F.line n).rel 0 a) (Same f g) (F.block n) (Parser.ifStmt b stmt start) (Parser.ifStmt b' stmt' start') := by
  refine .bind (.expect <| .plain rfl) fun _ _ _ => .bind (namedTest (h.below n) 0 true) fun e e' he => .bind (body h) fun ss ss' hss => ?_
  refine .bind (clauses rfl <| .bind (branch h) fun x x' hx => .pure ?_) fun bs bs' hbs => ?_
  case refine_1 => simp_all
  refine .bind (optionalBody h rfl) fun os os' hos => .upToHere fun w w' hw => .pure ?_
  have hn := recast_nested f w bs os
  have hn' := recast_nested g w' bs' os'
  simp_all

-- Handlers.

theorem handler (h : Follows F b b' stmt stmt') {wanted : Option Bool} :
    Tracks (Ahead (some <| .keyword .kwExcept) (F.block n)) (Same f g) (F.block n)
      (Parser.handler b stmt wanted) (Parser.handler b' stmt' wanted) := by
  have hb := (h.below n).test 0 true
  refine .clauseWord rfl fun t u ht => .bind (.accepts rfl) fun x y hx => ?_
  obtain rfl := hx
  refine .iteProp Iff.rfl (fun _ => .failAt) <| .bind (.isAt rfl) fun y y' hy => ?_
  obtain rfl := hy
  have rest {e e' : Option Expr} (he : Same f g e e') {i i' : Option Ident} (hi : Same f g i i') :
      Tracks ((F.line n).rel 0 true) (Same f g) (F.block n)
        (do
          let body ← Parser.body b stmt
          return (x, Handler.mk (t.span.join (← Parser.previous)) e i body))
        (do
          let body ← Parser.body b' stmt'
          return (x, Handler.mk (u.span.join (← Parser.previous)) e' i' body)) := by
    refine .bind (body h) fun ss ss' hss => .upToHere fun w w' hw => .pure ?_
    simp_all [ht.span]
  have named {e e' : Option Expr} (he : Same f g e e') :
      Tracks ((F.line n).rel 0 true) (Same f g) (F.block n)
        (do
          let name ← if !x && y then Pure.pure none else Parser.after Keyword.kwAs Parser.ident
          let body ← Parser.body b stmt
          return (x, Handler.mk (t.span.join (← Parser.previous)) e name body))
        (do
          let name ← if !x && y then Pure.pure none else Parser.after Keyword.kwAs Parser.ident
          let body ← Parser.body b' stmt'
          return (x, Handler.mk (u.span.join (← Parser.previous)) e' name body)) :=
    .ite rfl (rest he .none) <| .bind (.after (.plain rfl) .ident) fun i i' hi => rest he hi
  refine .ite rfl (named .none) <| .bind (.map hb) fun e e' he => named (by simp_all)

theorem handlers (h : Follows F b b' stmt stmt') :
    Tracks (F.block n) (Same f g) (F.block n) (Parser.handlers b stmt) (Parser.handlers b' stmt') := by
  refine .clauseIs rfl (.bind (handler h) fun x x' hx => ?_) (.pure rfl)
  obtain ⟨star, first⟩ := x
  obtain ⟨star', first'⟩ := x'
  obtain ⟨hs, hf⟩ := Prod.mk.inj hx
  obtain rfl : star = star' := hs
  refine .bind (clauses rfl <| .bind (handler h) fun x x' hx => .pure ?_) fun xs xs' hxs => .pure ?_
  case refine_1 =>
    have hs : Same f g x.2 x'.2 := congrArg Prod.snd hx
    simpa using hs
  case refine_2 => simp_all

theorem tryStmt (h : Follows F b b' stmt stmt') (hz : f.place start = g.place start') :
    Tracks ((F.line n).rel 0 a) (Same f g) (F.block n) (Parser.tryStmt b stmt start) (Parser.tryStmt b' stmt' start') := by
  refine .bind (.expect <| .plain rfl) fun _ _ _ => .bind (body h) fun ss ss' hss => .bind (handlers h) fun x x' hx => ?_
  obtain ⟨star, hs⟩ := x
  obtain ⟨star', hs'⟩ := x'
  obtain ⟨ht, hhs⟩ := Prod.mk.inj hx
  refine .bind (optionalBody h rfl) fun os os' hos => .bind (optionalBody h rfl) fun fs fs' hfs => ?_
  have hn : hs.isEmpty = hs'.isEmpty := by simpa using congrArg List.isEmpty hhs
  have hn' : fs.isEmpty = fs'.isEmpty := by simpa using congrArg List.isEmpty hfs
  refine .ite (by rw [hn, hn']) (.upToHere fun _ _ _ => .failAt) <| .upToHere fun w w' hw => .pure ?_
  simp_all

-- Decorators. What they decorate is on a line of its own, so the first list may not end behind them.

theorem decorator (h : Follows F b b' stmt stmt') :
    Tracks ((F.line n).rel 0 true) (Same f g) (F.block n) (Parser.decorator b) (Parser.decorator b') :=
  .bind (namedTest (h.below n) 0 true) fun _ _ he => .bind expectNewline fun _ _ _ => .bind skipNewlines fun _ _ _ => .pure he

theorem decorators (h : Follows F b b' stmt stmt') :
    TracksTo (fun c => c.kind? ≠ some .eof) ((F.line n).rel 0 false) (Same f g) ((F.line n).rel 0 false)
      (Parser.many <| Parser.after Mark.at <| Parser.decorator b) (Parser.many <| Parser.after Mark.at <| Parser.decorator b') := by
  have step : Tracks ((F.line n).rel 0 false) (Same f g) (fun c d => c.kind? ≠ some .eof → (F.line n).rel 0 false c d)
      (Parser.after Mark.at <| Parser.decorator b) (Parser.after Mark.at <| Parser.decorator b') := by
    refine .ifAccept (.plain rfl) (.bind ((decorator h).behind fun _ _ => F.enter) fun e e' he => .pure ?_) ?_
    case refine_1 => simp_all
    case refine_2 => exact .before (.pure rfl) fun _ _ h _ => h
  refine .many ?_ ?_ fun _ _ => (F.line n).size
  case refine_1 =>
    intro c d hs o c' hp hc
    obtain ⟨o', d', hq, ho, hs⟩ := step c d hs o c' hp
    exact ⟨o', d', hq, ho, hs hc⟩
  case refine_2 =>
    intro c hc
    exact bind_eq <| accept_eq_false <| by simp [not_not.mp hc]

theorem decorated (h : Follows F b b' stmt stmt') (hz : f.place start = g.place start') :
    Tracks ((F.line n).rel 0 false) (Same f g) (F.block n) (Parser.decorated b stmt start) (Parser.decorated b' stmt' start') := by
  refine TracksTo.tracks <| .bind (decorators h) (fun ds ds' hds => Tracks.to <| .get fun c d hs => ?_) fun ds c r e hk _ hc => ?_
  case refine_1 =>
    have here {S : Cursor → Cursor → Prop} (h : S c d) : ∀ x y, x = c ∧ y = d → S x y := by
      rintro _ _ ⟨rfl, rfl⟩
      exact h
    obtain ⟨he, hn⟩ | ⟨x, y, hc, hd, -⟩ := ((F.line n).head hs).kind?_cases
    case inr => simpa only [hc, hd] using .fail
    rw [← he]
    split
    case h_1 => exact .before (functionDef h hz hds) <| here hs
    case h_2 => exact .before (classDef h hz hds) <| here hs
    case h_3 hc =>
      obtain ⟨t, ts, u, us, hr, hr', ht, -⟩ := ((F.line n).head hs).taken hc
      have hg : t.kind.Goes 0 false 0 true := ht ▸ .turn (.plain rfl)
      refine .iteProp ((F.line n).secondKind?_eq_some_iff hs hr hr' hg rfl) (fun _ => ?_) .fail
      exact .before (.bind (.nextAt <| .plain rfl) fun _ _ _ => functionDef h hz hds) <| here ⟨hs, hc⟩
    case h_4 => exact .fail
  case refine_2 =>
    obtain ⟨_, _, hg, hk⟩ := ok_of_bind hk
    cases hg
    rw [hc] at hk
    cases hk

-- Match statements.

theorem matchCase (h : Follows F b b' stmt stmt') (hf : Faithful f g) :
    Tracks ((F.line n).rel 0 false) (Same f g) (F.block n) (Parser.matchCase b stmt) (Parser.matchCase b' stmt') := by
  refine .next fun t u ht => .iteProp (ht.kind_eq_name_iff hf) (fun hk => .before ?_ fun c d hs => hs 0 true (hk ▸ .name)) .failAt
  refine .get fun c d hs => .before ?_ (by rintro _ _ ⟨rfl, rfl⟩; exact hs)
  have hp := tracks_closedPattern hf (h.below n) (Nat.succ_le_succ <| (F.line n).size hs)
  refine .bind (openPattern hf hp 0 true) fun p p' hp => .bind (.after (.plain rfl) <| namedTest (h.below n) 0 true) fun o o' ho => ?_
  refine .bind (body h) fun ss ss' hss => .upToHere fun w w' hw => .pure ?_
  simp_all [ht.span]

theorem matchStmt (h : Follows F b b' stmt stmt') (hf : Faithful f g) (hz : f.place start = g.place start') {x : String} :
    Tracks (Ahead (some <| .name x) ((F.line n).rel 0 a)) (Same f g) (F.block n)
      (Parser.matchStmt b stmt start) (Parser.matchStmt b' stmt' start') := by
  refine .bind (.nextGoes .name) fun _ _ _ => .bind (exprList (h.below n) 0 true) fun e e' he => .bind (.expect .colon) fun _ _ _ => ?_
  refine .bind expectNewline fun _ _ _ => indented (matchCase h hf) fun cs cs' hcs => .ite ?_ .failAt <| .upToHere fun w w' hw => .pure ?_
  case refine_1 => simpa using congrArg List.isEmpty hcs
  case refine_2 => simp_all

end Tracks

-- Simple statements cannot be taken for the header of a match statement.
theorem not_opensMatch {i j : Nat} (hi : 1 < i) {ss : List Stmt} {e : Cursor} (hs : (F.line n).rel 0 a c d)
    (h : simpleStmts (Below.ofDepth i) c = .ok (ss, e)) : ¬OpensMatch (Below.ofDepth j) d := by
  intro hd
  rw [simpleStmts_eq] at h
  obtain ⟨_, c', hl, h⟩ := ok_of_bind h
  obtain ⟨_, _, he, -⟩ := ok_of_bind h
  obtain ⟨hb, hb'⟩ := (F.line n).bounded hs
  obtain ⟨t, ht, hn⟩ := lineStmts_last hi hl hb (endOfLine_layout he)
  obtain ⟨u, hu, hk⟩ := hd.colon_last hb'
  have hw := congrArg List.getLast? (F.words hs)
  rw [List.getLast?_map, List.getLast?_map, ht, hu] at hw
  exact hn <| Kind.eq_of_recast (Option.some.inj hw).symm (hk ▸ rfl) |>.trans hk

namespace Tracks

variable {i j : Nat}

theorem stmtForm (hi : 1 < i) (hj : i ≤ j) (h : Follows F (Below.ofDepth i) (Below.ofDepth j) stmt stmt') :
    Tracks ((F.line n).rel 0 false) (Same f g) (F.block n) (Parser.stmtForm (Below.ofDepth i) stmt) (Parser.stmtForm (Below.ofDepth j) stmt') := by
  refine .here fun z z' hz => ?_
  have one {S : Cursor → Cursor → Prop} {p p' : Parser Stmt} (hp : Tracks S (Same f g) (F.block n) p p') :
      Tracks S (Same f g) (F.block n) (do return [← p]) (do return [← p']) :=
    .bind hp fun s s' hs => .pure <| by simp_all
  have other : Tracks ((F.line n).rel 0 false) (Same f g) (F.block n)
      (do if ← startsMatch (Below.ofDepth i) then return [← Parser.matchStmt (Below.ofDepth i) stmt z] else Parser.simpleStmts (Below.ofDepth i))
      (do if ← startsMatch (Below.ofDepth j) then return [← Parser.matchStmt (Below.ofDepth j) stmt' z'] else Parser.simpleStmts (Below.ofDepth j)) := by
    intro c d hs
    obtain ⟨x, hx, hc⟩ := startsMatch_eq (Below.ofDepth i) c
    obtain ⟨y, hy, hd⟩ := startsMatch_eq (Below.ofDepth j) d
    rw [bind_eq hx, bind_eq hy]
    cases x
    case true =>
      have hm := hc.mp rfl
      obtain rfl : y = true := hd.mpr <| hm.tracks (h.below n) hs
      obtain ⟨t, ts, -, -, hr, ht, -⟩ := hm
      have hk : c.kind? = some (.name "match") := by simp [Cursor.kind?, hr, ht]
      obtain ⟨hf, -⟩ := ((F.line n).head hs).soft (by decide) hk
      exact one (matchStmt h hf hz) c d ⟨hs, hk⟩
    case false =>
      intro ss c' hp
      have hn : ¬OpensMatch (Below.ofDepth j) d := not_opensMatch hi hs hp
      obtain rfl : y = false := Bool.eq_false_iff.mpr <| hd.not.mpr hn
      exact simpleStmts hi hj c d hs ss c' hp
  refine .peek (fun o ho => ?_) fun x y _ => .seen other
  split
  case h_1 => exact .seen <| one <| decorated h hz
  case h_2 => exact .seen <| one <| functionDef h hz .nil
  case h_3 => exact .seen <| one <| classDef h hz .nil
  case h_4 => exact .seen <| one <| ifStmt h hz
  case h_5 => exact .seen <| one <| whileStmt h hz
  case h_6 => exact .seen <| one <| forStmt h hz
  case h_7 => exact .seen <| one <| tryStmt h hz
  case h_8 => exact .seen <| one <| withStmt h hz
  case h_9 => exact .seen <| one <| asyncStmt h hz
  case h_10 => exact .seen other

end Tracks

theorem tracks_stmt {i j k l : Nat} (hi : 1 < i) (hj : i ≤ j) (hk : k ≤ l) :
    Tracks ((F.line n).rel 0 false) (Same f g) (F.block n) (Parser.stmt (Below.ofDepth i) k) (Parser.stmt (Below.ofDepth j) l) := by
  induction k generalizing l n
  case zero => exact .fail
  case succ k ih =>
    obtain ⟨l, rfl⟩ := Nat.exists_eq_add_of_le' (Nat.lt_of_lt_of_le k.succ_pos hk)
    refine .stmtForm hi hj ⟨fun n => Below.tracks_ofDepth hj, fun n a => .simpleStmts hi hj, fun n => ih <| Nat.le_of_succ_le_succ hk⟩

end Parser
end PyVerify
