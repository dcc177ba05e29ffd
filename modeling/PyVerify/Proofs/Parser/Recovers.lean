import Mathlib.Order.Nat
import Mathlib.Tactic.IntervalCases
import PyVerify.Parser.Expression
import PyVerify.Proofs.Parser.Runs
import PyVerify.Proofs.Tree.Unplaced
import PyVerify.Proofs.Tree.Written

namespace PyVerify

open Token (Kind Keyword Mark)

-- The level of the operator that goes on with an expression at a token.
def Token.Kind.joins? : Kind → Option Nat
  | .keyword .kwIf                                                              => some 0
  | .keyword .kwOr                                                              => some 1
  | .keyword .kwAnd                                                             => some 2
  | .mark .less | .mark .greater | .mark .equal | .mark .greaterEqual
  | .mark .lessEqual | .mark .notEqual
  | .keyword .kwIn | .keyword .kwNot | .keyword .kwIs                           => some 4
  | .mark .bar                                                                  => some 5
  | .mark .caret                                                                => some 6
  | .mark .ampersand                                                            => some 7
  | .mark .shiftLeft | .mark .shiftRight                                        => some 8
  | .mark .plus | .mark .minus                                                  => some 9
  | .mark .star | .mark .slash | .mark .doubleSlash | .mark .percent | .mark .at => some 10
  | .mark .doubleStar                                                           => some 12
  | .mark .openParen | .mark .openBracket | .mark .dot                          => some 13
  | _                                                                           => none

-- The level of what an expression with this token at its front is at most.
def Token.Kind.opens? : Kind → Option Nat
  | .keyword .kwNot                                     => some 3
  | .mark .minus | .mark .plus | .mark .tilde           => some 11
  | .name _ | .int _ | .wideInt _ | .mark .openParen    => some 14
  | _                                                   => none

-- An expression of this level ends before these tokens.
def Stops (p : Nat) : List Kind → Prop
  | []      => True
  | k :: _  => ∀ q ∈ k.joins?, q < p

-- An expression of this level can begin with these tokens.
def Starts (p : Nat) : List Kind → Prop
  | []      => False
  | k :: _  => ∃ q ∈ k.opens?, p ≤ q

variable {p q : Nat} {e : Expr} {ks rest : List Kind} {c d : Cursor} {depth : Nat}

theorem Stops.mono (h : Stops p ks) (hp : p ≤ q) : Stops q ks := by
  cases ks
  case nil  => trivial
  case cons => exact fun l hl => (h l hl).trans_le hp

theorem Stops.of_joins? {k : Kind} (hk : k.joins? = some q) (hq : q < p) : Stops p (k :: ks) := by
  intro l hl
  rw [hk] at hl
  cases hl
  exact hq

-- No operator stands between signs and powers.
theorem Stops.of_power (h : Stops 12 ks) : Stops 11 ks := by
  cases ks
  case nil => trivial
  case cons k _ =>
    have hn : 11 ∉ k.joins? := by
      unfold Token.Kind.joins?
      split <;> decide
    intro q hq
    have hl : q < 12 := h q hq
    have hp : q ≠ 11 := fun hp => hn (hp ▸ hq)
    omega

theorem Starts.mono (h : Starts q ks) (hp : p ≤ q) : Starts p ks := by
  cases ks
  case nil  => exact h
  case cons => exact h.imp fun _ => .imp_right hp.trans

theorem Starts.append (h : Starts p ks) : Starts p (ks ++ rest) := by
  cases ks
  case nil  => exact h.elim
  case cons => exact h

namespace Parser

-- The parsers from the loosest level up to atoms.
def level : Nat → Below → Parser Expr
  | 0   => test
  | 1   => orTest
  | 2   => andTest
  | 3   => notTest
  | 4   => comparison
  | 5   => bitOr
  | 6   => bitXor
  | 7   => bitAnd
  | 8   => shift
  | 9   => arith
  | 10  => term
  | 11  => factor
  | 12  => power
  | 13  => primary
  | _   => atom

-- The expression was read, and these tokens are left.
structure Back (e : Expr) (rest : List Kind) (x : Expr) (d : Cursor) : Prop where
  same  : x.unplaced = e.unplaced
  ahead : d.Ahead rest

-- From its tokens an expression is read at this level, if it ends behind them.
structure Recovers (p : Nat) (e : Expr) (ks : List Kind) : Prop where
  starts  : Starts p ks
  runs    : ∀ {depth c rest}, ks.length ≤ depth → c.Ahead (ks ++ rest) → Stops p rest →
    Runs c (Back e rest) (level p (Below.ofDepth depth))

end Parser

theorem opens_of_signOf? {k : Kind} {op : UnaryOp} (h : Parser.signOf? k = some op) : ∀ q ∈ k.opens?, q < 12 := by
  unfold Parser.signOf? at h
  split at h
  case h_4 => cases h
  all_goals
    rintro _ ⟨⟩
    decide

namespace Cursor.Ahead

-- No other token comes first where an expression starts.
theorem kind?_ne_of_starts {k : Kind} (h : c.Ahead (ks ++ rest)) (hs : Starts p ks) (hk : ∀ q ∈ k.opens?, q < p) :
    c.kind? ≠ some k := by
  rw [h.kind?]
  cases ks
  case nil => exact hs.elim
  case cons =>
    rintro ⟨⟩
    obtain ⟨q, hq, hp⟩ := hs
    exact (hk q hq).not_ge hp

theorem kind?_ne_of_stops {k : Kind} (h : c.Ahead ks) (hs : Stops p ks) (hk : ∃ q ∈ k.joins?, p ≤ q) : c.kind? ≠ some k := by
  rw [h.kind?]
  cases ks
  case nil => exact nofun
  case cons =>
    rintro ⟨⟩
    obtain ⟨q, hq, hp⟩ := hk
    exact (hs q hq).not_ge hp

theorem bind_eq_none_of_starts {α : Type} {f : Kind → Option α} (h : c.Ahead (ks ++ rest)) (hs : Starts p ks)
    (hf : ∀ k a, f k = some a → ∀ q ∈ k.opens?, q < p) : c.kind?.bind f = none := by
  refine Option.bind_eq_none_iff.mpr fun k hk => Option.eq_none_iff_forall_ne_some.mpr fun a ha => ?_
  exact h.kind?_ne_of_starts hs (hf k a ha) hk

theorem bind_eq_none_of_stops {α : Type} {f : Kind → Option α} (h : c.Ahead ks) (hs : Stops p ks)
    (hf : ∀ k a, f k = some a → ∃ q ∈ k.joins?, p ≤ q) : c.kind?.bind f = none := by
  refine Option.bind_eq_none_iff.mpr fun k hk => Option.eq_none_iff_forall_ne_some.mpr fun a ha => ?_
  exact h.kind?_ne_of_stops hs (hf k a ha) hk

end Cursor.Ahead

namespace Parser.Recovers

theorem below_test (h : Recovers 0 e ks) (hd : ks.length < depth) (hc : c.Ahead (ks ++ rest)) (hr : Stops 0 rest) :
    Runs c (Back e rest) (Below.ofDepth depth).test := by
  cases depth
  case zero => cases hd
  case succ => exact h.runs (Nat.le_of_lt_succ hd) hc hr

theorem below_notTest (h : Recovers 3 e ks) (hd : ks.length < depth) (hc : c.Ahead (ks ++ rest)) (hr : Stops 3 rest) :
    Runs c (Back e rest) (Below.ofDepth depth).notTest := by
  cases depth
  case zero => cases hd
  case succ => exact h.runs (Nat.le_of_lt_succ hd) hc hr

theorem below_factor (h : Recovers 11 e ks) (hd : ks.length < depth) (hc : c.Ahead (ks ++ rest)) (hr : Stops 11 rest) :
    Runs c (Back e rest) (Below.ofDepth depth).factor := by
  cases depth
  case zero => cases hd
  case succ => exact h.runs (Nat.le_of_lt_succ hd) hc hr

end Recovers

-- Levels whose operators associate to the left: what is read at the level above is followed by further parts.
def spine {α : Type} (p : Nat) (step : Below → Parser (Option α)) (extend : Expr → α → Expr) (b : Below) : Parser Expr := do
  let first ← level (p + 1) b
  let more ← many (step b)
  return more.foldl extend first

-- From its tokens the parts of an expression are read, and parts may follow them.
structure Collects {α : Type} (p : Nat) (step : Below → Parser (Option α)) (extend : Expr → α → Expr) (e : Expr)
    (ks : List Kind) : Prop where
  starts  : Starts p ks
  runs    : ∀ {depth c rest}, ks.length ≤ depth → c.Ahead (ks ++ rest) → Stops (p + 1) rest →
    Runs c (fun x d => d.rest.length ≤ d.size ∧
        ∃ ys d', Steps (step <| Below.ofDepth depth) d ys d' ∧ Back e rest (ys.foldl extend x) d')
      (level (p + 1) <| Below.ofDepth depth)

namespace Collects

variable {α : Type} {step : Below → Parser (Option α)} {extend : Expr → α → Expr} {left : Expr} {more : List Kind}

theorem of_recovers (h : Recovers (p + 1) e ks) : Collects p step extend e ks where
  starts := h.starts.mono p.le_succ
  runs hd hc hr := (h.runs hd hc hr).mono fun _ d hx => ⟨hx.ahead.bounded, [], d, .nil, hx⟩

theorem append (h : Collects p step extend left ks) (hm : ∀ rest, Stops (p + 1) (more ++ rest)) (hn : 0 < more.length)
    (hs : ∀ {depth c rest}, more.length ≤ depth → c.Ahead (more ++ rest) → Stops (p + 1) rest →
      Runs c (fun o d => ∃ y, o = some y ∧ d.Ahead rest ∧ ∀ x, x.unplaced = left.unplaced → (extend x y).unplaced = e.unplaced)
        (step <| Below.ofDepth depth)) : Collects p step extend e (ks ++ more) where
  starts := h.starts.append
  runs {depth c rest} hd hc hr := by
    rw [List.length_append] at hd
    refine (h.runs (by omega) (List.append_assoc .. ▸ hc) (hm rest)).mono fun x d ⟨hb, ys, d', hy, hx⟩ => ?_
    obtain ⟨_, d'', he, y, rfl, ha, hl⟩ := hs (by omega : more.length ≤ depth) hx.ahead hr
    have ht : d''.rest.length < d'.rest.length := by
      rw [ha.length, hx.ahead.length, List.length_append]
      omega
    refine ⟨hb, ys ++ [y], d'', hy.append <| .cons he ht .nil, ?_, ha⟩
    rw [List.foldl_append]
    exact hl _ hx.same

theorem recovers (h : Collects p step extend e ks) (hp : level p = spine p step extend)
    (hn : ∀ {b c rest}, c.Ahead rest → Stops p rest → Runs c (fun o d => o = none ∧ d.Ahead rest) (step b)) :
    Recovers p e ks where
  starts := h.starts
  runs {_ _ rest} hd hc hr := by
    rw [hp]
    refine .bind (h.runs hd hc <| hr.mono p.le_succ) fun x d ⟨hb, ys, d', hy, hx⟩ => ?_
    refine .bind (Q := fun zs e => zs = ys ∧ e.Ahead rest) (.many hb hy ?_) ?_
    case refine_1 => exact (hn hx.ahead hr).mono fun _ _ ⟨ho, hd⟩ => ⟨ho, rfl, hd⟩
    case refine_2 =>
      rintro _ d ⟨rfl, hd⟩
      exact .pure ⟨hx.same, hd⟩

end Collects

-- Binary operators of one level.
def infixOp? : Nat → Kind → Option BinaryOp
  | 5   => bitOrOp?
  | 6   => bitXorOp?
  | 7   => bitAndOp?
  | 8   => shiftOp?
  | 9   => arithOp?
  | 10  => termOp?
  | _   => fun _ => none

def infixStep (p : Nat) (b : Below) : Parser (Option (BinaryOp × Expr)) := do
  match (← peek).bind (infixOp? p) with
  | some op =>
    let _ ← next
    return some (op, ← level (p + 1) b)
  | none => return none

def applyInfix (left : Expr) : BinaryOp × Expr → Expr
  | (op, right) => .binary (left.span.join right.span) left op right

theorem level_eq_spine (hp : 5 ≤ p) (hq : p ≤ 10) : level p = spine p (infixStep p) applyInfix := by
  interval_cases p <;> rfl

theorem joins_of_infixOp? {k : Kind} {op : BinaryOp} (h : infixOp? p k = some op) : k.joins? = some p := by
  unfold infixOp? at h
  split at h
  case h_7 => cases h
  all_goals
    simp only [bitOrOp?, bitXorOp?, bitAndOp?, shiftOp?, arithOp?, termOp?] at h
    split at h
    all_goals first | rfl | cases h

theorem infixStep_none {b : Below} (hc : c.Ahead rest) (hr : Stops p rest) :
    Runs c (fun o d => o = none ∧ d.Ahead rest) (infixStep p b) := by
  refine .peek ?_
  rw [hc.bind_eq_none_of_stops hr fun k op hk => ⟨p, joins_of_infixOp? hk, le_rfl⟩]
  exact .pure ⟨rfl, hc⟩

theorem Runs.unlessStartsGenerators {α : Type} {Q : α → Cursor → Prop} {p q : Parser α}
    (hf : c.kind? ≠ some (.keyword .kwFor)) (ha : c.kind? ≠ some (.keyword .kwAsync)) (h : Runs c Q q) :
    Runs c Q (startsGenerators >>= fun b => if b then p else q) := by
  have hs {k : Bool → Parser α} (h : Runs c Q (k (c.kind? == some (.keyword .kwFor) || c.kind? == some (.keyword .kwAsync)))) :
      Runs c Q (startsGenerators >>= k) := h
  refine hs ?_
  rwa [if_neg (by simp [hf, ha])]

-- What is read behind an opening bracket or a comma.
theorem Recovers.namedTest (h : Recovers 0 e ks) (hd : ks.length < depth) (hc : c.Ahead (ks ++ rest)) (hr : Stops 0 rest)
    (hw : rest.head? ≠ some (.mark .walrus)) : Runs c (Back e rest) (Parser.namedTest <| Below.ofDepth depth) :=
  .bind (h.below_test hd hc hr) fun _ _ hx => .unlessAt (hx.ahead.kind? ▸ hw) <| .pure hx

theorem Recovers.starOrNamed (h : Recovers 0 e ks) (hd : ks.length < depth) (hc : c.Ahead (ks ++ rest)) (hr : Stops 0 rest)
    (hw : rest.head? ≠ some (.mark .walrus)) : Runs c (Back e rest) (Parser.starOrNamed <| Below.ofDepth depth) :=
  .unlessAt (hc.kind?_ne_of_starts h.starts nofun) (h.namedTest hd hc hr hw)

theorem Recovers.subscriptList (h : Recovers 0 e ks) (hd : ks.length < depth)
    (hc : c.Ahead (ks ++ .mark .closeBracket :: rest)) :
    Runs c (Back e (.mark .closeBracket :: rest)) (Parser.subscriptList <| Below.ofDepth depth) := by
  refine .bind (Q := Back e (.mark .closeBracket :: rest)) ?_ fun y d hy => .unlessAt (hy.ahead.kind?_ne nofun) <| .pure hy
  refine .here <| .unlessAt (hc.kind?_ne_of_starts h.starts nofun) ?_
  exact .bind (h.starOrNamed hd hc nofun nofun) fun y d hy => .unlessAt (hy.ahead.kind?_ne nofun) <| .pure hy

theorem Runs.unlessStartsKeywordArg {α : Type} {Q : α → Cursor → Prop} {p q : Parser α}
    (hk : c.secondKind? ≠ some (.mark .assign)) (h : Runs c Q q) :
    Runs c Q (startsKeywordArg >>= fun b => if b then p else q) := by
  refine .bind (Q := fun b d => b = false ∧ d = c) ?_ ?_
  case refine_1 =>
    refine .get ?_
    split
    case h_1 ha => exact (hk ha).elim
    case h_2    => exact .pure ⟨rfl, rfl⟩
  case refine_2 =>
    rintro _ _ ⟨rfl, rfl⟩
    exact h

-- The arguments were read, and these tokens are left.
structure Passed (s : Arguments) (es : List Expr) (rest : List Kind) (r : Arguments) (d : Cursor) : Prop where
  args      : r.args.map Expr.unplaced = (s.args ++ es).map Expr.unplaced
  keywords  : r.keywords = s.keywords
  ahead     : d.Ahead rest

theorem Recovers.argument {s : Arguments} {m : Mark} (h : Recovers 0 e ks) (ha : .mark .assign ∉ ks) (hd : ks.length < depth)
    (hm : m = .comma ∨ m = .closeParen) (hc : c.Ahead (ks ++ .mark m :: rest)) :
    Runs c (Passed s [e] (.mark m :: rest)) (Parser.argument (Below.ofDepth depth) s) := by
  have hk : c.secondKind? ≠ some (.mark .assign) := by
    rw [hc.secondKind?]
    obtain _ | ⟨k, _ | ⟨l, ls⟩⟩ := ks
    case nil        => exact h.starts.elim
    case cons.nil   => rcases hm with rfl | rfl <;> nofun
    case cons.cons  => simpa using Ne.symm (List.ne_of_not_mem_cons (List.not_mem_of_not_mem_cons ha))
  refine .unlessAt (hc.kind?_ne_of_starts h.starts nofun) <| .unlessAt (hc.kind?_ne_of_starts h.starts nofun) ?_
  refine .unlessStartsKeywordArg hk ?_
  have hr : Stops 0 (.mark m :: rest) := by rcases hm with rfl | rfl <;> nofun
  refine .bind (h.namedTest hd hc hr ?_) fun x d hx => ?_
  case refine_1 => rcases hm with rfl | rfl <;> nofun
  refine .unlessStartsGenerators (hx.ahead.kind?_ne nofun) (hx.ahead.kind?_ne nofun) <| .pure ⟨?_, rfl, hx.ahead⟩
  simp [hx.same]

theorem trailer_none {b : Below} (hc : c.Ahead rest) (hr : Stops 13 rest) :
    Runs c (fun o d => o = none ∧ d.Ahead rest) (trailer b) := by
  refine .unlessAccept ?_ <| .unlessAccept ?_ <| .unlessAccept ?_ <| .pure ⟨rfl, hc⟩
  all_goals exact hc.kind?_ne_of_stops hr ⟨13, rfl, le_rfl⟩

theorem Runs.compareOp {op : CompareOp} (hc : c.Ahead (op.kinds ++ ks)) (hs : Starts 5 ks) :
    Runs c (fun o d => o = some op ∧ d.Ahead ks) Parser.compareOp := by
  have hk := hc.kind?
  have hn := hc.secondKind?
  refine .get ?_
  cases op
  case isNot | notIn =>
    simp only [hk, hn]
    exact .bind (.next hc) fun _ d ⟨_, hd⟩ => .bind (.next hd) fun _ e ⟨_, he⟩ => .pure ⟨rfl, he⟩
  case is =>
    -- An operand does not begin with the second word of the other operator.
    have hw : c.secondKind? ≠ some (.keyword .kwNot) := by
      cases ks
      case nil => exact hs.elim
      case cons =>
        rw [hn]
        rintro ⟨⟩
        obtain ⟨_, ⟨⟩, hp⟩ := hs
        exact absurd hp (by decide)
    simp only [show c.kind? = some (.keyword .kwIs) from hk]
    split
    case isTrue h => exact (hw h).elim
    case isFalse  => exact .bind (.next hc) fun _ d ⟨_, hd⟩ => .pure ⟨rfl, hd⟩
  all_goals
    simp only [hk]
    exact .bind (.next hc) fun _ d ⟨_, hd⟩ => .pure ⟨rfl, hd⟩

theorem compareOp_none (hc : c.Ahead rest) (hr : Stops 4 rest) : Runs c (fun o d => o = none ∧ d.Ahead rest) compareOp := by
  refine .get ?_
  have hk := fun k => hc.kind?_ne_of_stops (k := k) hr
  split
  case h_10 => exact .pure ⟨rfl, hc⟩
  all_goals exact (hk _ ⟨4, rfl, le_rfl⟩ ‹_›).elim

namespace Recovers

-- An expression that is read at a level is read at the looser ones, too.

theorem primary (h : Recovers 14 e ks) : Recovers 13 e ks :=
  Collects.recovers (.of_recovers h) rfl trailer_none

theorem power (h : Recovers 13 e ks) : Recovers 12 e ks where
  starts := h.starts.mono (by decide)
  runs hd hc hr := by
    refine .bind (.unlessAt (hc.kind?_ne_of_starts h.starts nofun) <| h.runs hd hc <| hr.mono (by decide)) fun x d hx => ?_
    exact .unlessAccept (hx.ahead.kind?_ne_of_stops hr ⟨12, rfl, le_rfl⟩) <| .pure hx

theorem factor (h : Recovers 12 e ks) : Recovers 11 e ks where
  starts := h.starts.mono (by decide)
  runs hd hc hr := by
    refine .peek ?_
    rw [hc.bind_eq_none_of_starts h.starts fun _ _ => opens_of_signOf?]
    exact h.runs hd hc <| hr.mono (by decide)

theorem infixes (hp : 5 ≤ p) (hq : p ≤ 10) (h : Recovers (p + 1) e ks) : Recovers p e ks :=
  Collects.recovers (.of_recovers h) (level_eq_spine hp hq) infixStep_none

theorem comparison (h : Recovers 5 e ks) : Recovers 4 e ks where
  starts := h.starts.mono (by decide)
  runs {_ _ rest} hd hc hr := by
    refine .bind (h.runs hd hc <| hr.mono (by decide)) fun x d hx => ?_
    refine .bind (Q := fun links d => links = [] ∧ d.Ahead rest) (.many hx.ahead.bounded .nil ?_) ?_
    case refine_1 =>
      refine .bind (compareOp_none hx.ahead hr) ?_
      rintro _ d ⟨rfl, hd⟩
      exact .pure ⟨rfl, rfl, hd⟩
    case refine_2 =>
      rintro _ d ⟨rfl, hd⟩
      exact .pure ⟨hx.same, hd⟩

theorem notTest (h : Recovers 4 e ks) : Recovers 3 e ks where
  starts := h.starts.mono (by decide)
  runs hd hc hr := .unlessAt (hc.kind?_ne_of_starts h.starts <| by rintro _ ⟨⟩; decide) <| h.runs hd hc <| hr.mono (by decide)

theorem boolLevel {word : Keyword} {op : BoolOp} (hl : ∀ b, level p b = Parser.boolLevel word op (level (p + 1) b))
    (hw : (Kind.keyword word).joins? = some p) (h : Recovers (p + 1) e ks) : Recovers p e ks where
  starts := h.starts.mono p.le_succ
  runs {_ _ rest} hd hc hr := by
    rw [hl]
    refine .bind (h.runs hd hc <| hr.mono p.le_succ) fun x d hx => ?_
    refine .bind (Q := fun more d => more = [] ∧ d.Ahead rest) (.many hx.ahead.bounded .nil ?_) ?_
    case refine_1 => exact .unlessAccept (hx.ahead.kind?_ne_of_stops hr ⟨p, hw, le_rfl⟩) <| .pure ⟨rfl, rfl, hx.ahead⟩
    case refine_2 =>
      rintro _ d ⟨rfl, hd⟩
      exact .pure ⟨hx.same, hd⟩

theorem test (h : Recovers 1 e ks) : Recovers 0 e ks where
  starts := h.starts.mono (by decide)
  runs hd hc hr := by
    refine .unlessAt (hc.kind?_ne_of_starts h.starts nofun) <| .bind (h.runs hd hc <| hr.mono (by decide)) fun x d hx => ?_
    exact .unlessAccept (hx.ahead.kind?_ne_of_stops hr ⟨0, rfl, le_rfl⟩) <| .pure hx

-- In parentheses every expression is an atom.
theorem parens (h : Recovers 0 e ks) : Recovers 14 e (.mark .openParen :: (ks ++ [.mark .closeParen])) where
  starts := ⟨14, rfl, le_rfl⟩
  runs {depth _ rest} hd hc hr := by
    rw [List.cons_append, List.append_assoc, List.singleton_append] at hc
    refine .bind (.next hc) fun t d ⟨hk, hd'⟩ => ?_
    simp only [hk]
    have hl : ks.length < depth := by
      simp only [List.length_cons, List.length_append] at hd
      omega
    refine .unlessAt (hd'.kind?_ne_of_starts h.starts nofun) <| .unlessAt (hd'.kind?_ne_of_starts h.starts nofun) ?_
    refine .bind (h.starOrNamed hl hd' nofun nofun) fun x d hx => ?_
    refine .unlessStartsGenerators (hx.ahead.kind?_ne nofun) (hx.ahead.kind?_ne nofun) ?_
    refine .unlessAt (hx.ahead.kind?_ne nofun) <| .bind (.expect hx.ahead) fun _ d hd => .pure ⟨hx.same, hd⟩

theorem lower (hp : p < 14) (h : Recovers (p + 1) e ks) : Recovers p e ks := by
  match p with
  | 0 => exact h.test
  | 1 | 2 => exact h.boolLevel (fun _ => rfl) rfl
  | 3 => exact h.notTest
  | 4 => exact h.comparison
  | 5 | 6 | 7 | 8 | 9 | 10 => exact h.infixes (by decide) (by decide)
  | 11 => exact h.factor
  | 12 => exact h.power
  | 13 => exact h.primary

theorem mono (h : Recovers q e ks) (hp : p ≤ q) (hq : q ≤ 14) : Recovers p e ks := by
  induction q, hp using Nat.le_induction
  case base => exact h
  case succ q _ hi => exact hi (h.lower hq) (Nat.le_of_lt hq)

end Recovers
end Parser
end PyVerify
