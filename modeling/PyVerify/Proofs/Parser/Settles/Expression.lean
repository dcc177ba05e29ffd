import PyVerify.Parser.Expression
import PyVerify.Proofs.Parser.Settles

namespace PyVerify

open Token (Kind Keyword Mark)

variable {g : Ground}

-- An expression takes up a stretch of the text, and so does the part that keeps it from being a target.
structure Ground.Places (g : Ground) (e : Expr) : Prop where
  span  : g.Fits e.span
  part  : ∀ p, e.unassignable? = some p → g.Fits p.span

namespace Ground.Places

variable {e : Expr} {es : List Expr} {z : Span}

theorem target (h : g.Fits e.span) (he : e.unassignable? = none) : g.Places e where
  span      := h
  part _ hp := (Option.some_ne_none _ (hp.symm.trans he)).elim

-- An expression that is no target as a whole.
theorem other (h : g.Fits e.span) (he : e.unassignable? = some e) : g.Places e where
  span      := h
  part _ hp := Option.some.inj (he.symm.trans hp) ▸ h

theorem starred (h : g.Fits z) (he : g.Places e) : g.Places (.starred z e) :=
  ⟨h, he.part⟩

theorem first (h : ∀ e ∈ es, g.Places e) : ∀ p, Expr.firstUnassignable? es = some p → g.Fits p.span := by
  induction es
  case nil => exact nofun
  case cons e es hi =>
    obtain ⟨he, h⟩ := List.forall_mem_cons.mp h
    intro p hp
    rw [Expr.firstUnassignable?] at hp
    split at hp
    case h_1 hq =>
      cases hp
      exact he.part _ hq
    case h_2 => exact hi h p hp

theorem tuple (h : g.Fits z) (hs : ∀ e ∈ es, g.Places e) : g.Places (.tuple z es) :=
  ⟨h, first hs⟩

theorem list (h : g.Fits z) (hs : ∀ e ∈ es, g.Places e) : g.Places (.list z es) :=
  ⟨h, first hs⟩

end Ground.Places

-- Parsers for expressions, which take a token or more.
abbrev Parser.SettlesExpr (g : Ground) (n : Nat) (p q : Parser Expr) : Prop :=
  Settles g n g.Places (fun _ => n - 1) p q

-- The parsers for what is nested in an expression, in front of at most so many tokens.
structure Below.Settles (g : Ground) (depth : Nat) (b b' : Below) : Prop where
  test    : ∀ n ≤ depth, Parser.SettlesExpr g n b.test b'.test
  orTest  : ∀ n ≤ depth, Parser.SettlesExpr g n b.orTest b'.orTest
  notTest : ∀ n ≤ depth, Parser.SettlesExpr g n b.notTest b'.notTest
  bitOr   : ∀ n ≤ depth, Parser.SettlesExpr g n b.bitOr b'.bitOr
  factor  : ∀ n ≤ depth, Parser.SettlesExpr g n b.factor b'.factor

namespace Parser

def Trailer.span : Trailer → Span
  | call _ close | subscript _ close  => close
  | attr name                         => name.span

theorem SettlesExpr.behind {m n : Nat} {p q : Parser Expr} (h : SettlesExpr g m p q) (hm : m ≤ n) :
    Settles g m g.Places (fun _ => n - 1) p q :=
  h.within fun _ => Nat.sub_le_sub_right hm 1

namespace Settles

variable {α : Type} {V : α → Prop} {l : α → Nat} {b b' : Below} {depth n : Nat} {start : Span} {close : Kind} {item item' : Parser Expr}
variable {p p' q q' : Parser α}

theorem sequence (h : ∀ k ≤ n, SettlesExpr g k item item') : SettlesExpr g n (Parser.sequence item) (Parser.sequence item') := by
  refine .bind (h n le_rfl) fun first hf => .ifAt ?_ (.pure hf le_rfl)
  refine .bind (.commaTail (fun _ => .startsExpr fun _ => .pure trivial le_rfl) fun k hk => h k (by omega)) fun more hm => ?_
  exact .previous fun z hz => .pure (.tuple (g.join hf.span hz) <| List.forall_mem_cons.mpr ⟨hf, hm⟩) le_rfl

theorem starred (h : b.Settles g depth b') (hn : n ≤ depth + 1) : SettlesExpr g n (Parser.starred b) (Parser.starred b') := by
  refine .bind .expect fun star hs => .bind (h.bitOr (n - 1) (by omega)) fun value hv => ?_
  exact .pure (.starred (g.join hs hv.span) hv) (by omega)

theorem namedTest (h : b.Settles g depth b') (hn : n ≤ depth) : SettlesExpr g n (Parser.namedTest b) (Parser.namedTest b') := by
  refine .bind (h.test n hn) fun e he => .ifAt (.ite ?_ (.failAt nofun he.span)) (.pure he le_rfl)
  refine .bind .next fun _ _ => .bind (h.test _ (by omega)) fun value hv => ?_
  exact .pure (.other (g.join he.span hv.span) rfl) (by omega)

theorem starOrNamed (h : b.Settles g depth b') (hn : n ≤ depth) : SettlesExpr g n (Parser.starOrNamed b) (Parser.starOrNamed b') :=
  .ifAt (.starred h (by omega)) (.namedTest h hn)

theorem exprList (h : b.Settles g depth b') (hn : n ≤ depth) : SettlesExpr g n (Parser.exprList b) (Parser.exprList b') :=
  .sequence fun _ hk => .starOrNamed h (hk.trans hn)

theorem targetList (h : b.Settles g depth b') (hn : n ≤ depth) : SettlesExpr g n (Parser.targetList b) (Parser.targetList b') :=
  .sequence fun k hk => .ifAt (.starred h (by omega)) (h.bitOr k (hk.trans hn))

theorem checkTarget {e : Expr} (h : ∀ p, e.unassignable? = some p → g.Fits p.span) :
    Settles g n (fun _ => e.unassignable? = none) (fun _ => n) (Parser.checkTarget e) (Parser.checkTarget e) := by
  unfold Parser.checkTarget
  split
  case h_1 hp => exact .failAt nofun (h _ hp)
  case h_2 hp => exact .pure hp le_rfl

theorem annotation {allowed : Bool} (h : b.Settles g depth b') (hn : n ≤ depth + 1) :
    Settles g n (fun _ => True) (fun _ => n) ( Parser.annotation b allowed) ( Parser.annotation b' allowed) :=
  .ite (after (h.test _ (by omega)) (by omega)).any (.pure trivial le_rfl)

theorem param {allowed : Bool} {s : ParamsSoFar} (h : b.Settles g depth b') (hn : n ≤ depth + 1) :
    SettlesStep g n (Parser.param b close allowed s) (Parser.param b' close allowed s) := by
  refine .here fun _ _ => .ifAccept (.pure trivial le_rfl) <| .ifAccept ?keywords <| .ifAccept ?star ?plain
  case keywords =>
    refine .bind .ident fun _ _ => .bind ( annotation h (by omega)) fun _ _ => .previous fun _ _ => .pure trivial (by omega)
  case star =>
    refine .isAt fun _ => .isAt fun _ => .ite (.pure trivial le_rfl) ?_
    refine .bind .ident fun _ _ => .bind ( annotation h (by omega)) fun _ _ => .previous fun _ _ => .pure trivial (by omega)
  case plain =>
    refine .bind .ident fun _ _ => .bind ( annotation h (by omega)) fun _ _ => .bind (.after (h.test _ (by omega)) (by omega)) ?_
    exact fun _ _ => .previous fun _ _ => .pure trivial (by omega)

theorem params {allowed : Bool} (h : b.Settles g depth b') (hn : n ≤ depth + 1) :
    Settles g n (fun _ => True) (fun _ => n) (Parser.params b close allowed) (Parser.params b' close allowed) :=
  .bind (.foldItems (fun _ hk _ _ => .param h (hk.trans hn)) trivial) fun _ _ => .pure trivial le_rfl

theorem generators (h : b.Settles g depth b') (hn : n ≤ depth + 1) :
    Settles g n (fun _ => True) (fun _ => n) (Parser.generators b) (Parser.generators b') := by
  refine .any <| .many (V := fun _ => True) fun k hk => ?_
  refine .isAt fun _ => .isAt fun _ => .ite ?_ (.pure nofun le_rfl)
  -- The word `async` may be left out.
  refine (fun (hg : ∀ m ≤ k, Settles g m _ _ _ _) => .ite (.bind .next fun _ _ => hg _ (Nat.sub_le k 1)) (hg k le_rfl)) fun m hm => ?_
  refine .bind .expect fun _ _ => .bind (.targetList h (by omega)) fun target ht => .bind (.checkTarget ht.part) fun _ _ => ?_
  refine .bind .expect fun _ _ => .bind (h.orTest _ (by omega)) fun _ _ => .bind (.many fun i hi => .afterStep (h.orTest _ ?_) ?_) ?_
  case refine_3 => exact fun _ _ => .pure (fun _ _ => trivial) (by simp only [left]; omega)
  all_goals omega

theorem startsGenerators {x y : Bool → Parser α} (h : ∀ b, Settles g n V l (x b) (y b)) :
    Settles g n V l (Parser.startsGenerators >>= x) (Parser.startsGenerators >>= y) :=
  .look (.isAt fun _ => .isAt fun _ => .pure trivial le_rfl) h

theorem startsKeywordArg {x y : Bool → Parser α} (h : ∀ b, Settles g n V l (x b) (y b)) :
    Settles g n V l (Parser.startsKeywordArg >>= x) (Parser.startsKeywordArg >>= y) := by
  refine .look (.view (fun _ _ => rfl) fun c => ?_) h
  split <;> exact .pure trivial le_rfl

theorem argument {s : Arguments} (h : b.Settles g depth b') (hn : n ≤ depth) :
    SettlesStep g n (Parser.argument b s) (Parser.argument b' s) := by
  refine .ifAt ?_ <| .ifAt ?_ <| .startsKeywordArg fun _ => .ite ?_ ?_
  case refine_1 | refine_2 => exact .bind .next fun _ _ => .bind (h.test _ (by omega)) fun _ _ => .pure trivial (by omega)
  case refine_3 =>
    exact .bind .ident fun _ _ => .bind .next fun _ _ => .bind (h.test _ (by omega)) fun _ _ => .pure trivial (by omega)
  case refine_4 =>
    refine .bind (.namedTest h hn) fun _ _ => .startsGenerators fun _ => .ite ?_ (.pure trivial le_rfl)
    exact .bind (.generators h (by omega)) fun _ _ => .previous fun _ _ => .pure trivial le_rfl

theorem arguments (h : b.Settles g depth b') (hn : n ≤ depth) :
    Settles g n (fun _ => True) (fun _ => n) (Parser.arguments b) (Parser.arguments b') :=
  .foldItems (fun _ hk _ _ => .argument h (hk.trans hn)) trivial

theorem optionalTest (h : b.Settles g depth b') (hn : n ≤ depth) :
    Settles g n (fun _ => True) (fun _ => n) (Parser.optionalTest b) (Parser.optionalTest b') :=
  .startsExpr fun _ => .ite (.bind (h.test n hn) fun _ _ => .pure trivial (Nat.sub_le n 1)) (.pure trivial le_rfl)

theorem sliceTail {lower : Option Expr} (h : b.Settles g depth b') (hn : n ≤ depth + 1) (hz : g.Fits start) :
    SettlesExpr g n (Parser.sliceTail b start lower) (Parser.sliceTail b' start lower) := by
  refine .bind .expect fun _ _ => .bind (.optionalTest h (by omega)) fun _ _ => .bind (.after (.optionalTest h (by omega)) le_rfl) ?_
  exact fun _ _ => .previous fun z hz' => .pure (.other (g.join hz hz') rfl) le_rfl

theorem subscriptItem (h : b.Settles g depth b') (hn : n ≤ depth) : SettlesExpr g n (Parser.subscriptItem b) (Parser.subscriptItem b') := by
  refine .here fun z hz => .ifAt (.sliceTail h (by omega) hz) <| .bind (.starOrNamed h hn) fun e he => .ifAt ?_ (.pure he le_rfl)
  exact (sliceTail h (by omega) hz).behind (Nat.sub_le n 1)

theorem subscriptList (h : b.Settles g depth b') (hn : n ≤ depth) : SettlesExpr g n (Parser.subscriptList b) (Parser.subscriptList b') := by
  refine .bind (.subscriptItem h hn) fun first hf => .ifAt ?_ (.pure hf le_rfl)
  refine .bind (.commaTail (fun _ => .isAt fun _ => .pure trivial le_rfl) fun _ _ => .subscriptItem h (by omega)) fun more hm => ?_
  exact .previous fun z hz => .pure (.tuple (g.join hf.span hz) <| List.forall_mem_cons.mpr ⟨hf, hm⟩) le_rfl

theorem yieldExpr (h : b.Settles g depth b') (hn : n ≤ depth + 1) : SettlesExpr g n (Parser.yieldExpr b) (Parser.yieldExpr b') := by
  refine .bind .expect fun kw hk => .ifAccept ?_ <| .startsExpr fun _ => .ite ?_ ?_
  case refine_1 =>
    refine .bind (h.test _ (by omega)) fun value hv => ?_
    exact .pure (.other (g.join hk hv.span) rfl) (by omega)
  case refine_2 =>
    refine .bind (.exprList h (by omega)) fun _ _ => .previous fun z hz => ?_
    exact .pure (.other (g.join hk hz) rfl) (by omega)
  case refine_3 => exact .previous fun z hz => .pure (.other (g.join hk hz) rfl) le_rfl

-- Atoms.

theorem parenAtom (h : b.Settles g depth b') (hn : n ≤ depth) (hz : g.Fits start) :
    SettlesExpr g n (Parser.parenAtom b start) (Parser.parenAtom b' start) := by
  refine .ifAt ?empty <| .ifAt ?yield <| .bind (.starOrNamed h hn) fun first hf => .startsGenerators fun _ => .ite ?generator <| .ifAt ?tuple ?group
  case empty  => exact .bind .next fun close hc => .pure (.tuple (g.join hz hc) nofun) le_rfl
  case yield  => exact .bind (.yieldExpr h (by omega)) fun _ hv => .bind .expect fun _ _ => .pure hv (by omega)
  case group  => exact .bind .expect fun _ _ => .pure hf (by omega)
  case generator =>
    refine .bind (.generators h (by omega)) fun _ _ => .bind .expect fun close hc => ?_
    exact .pure (.other (g.join hz hc) rfl) (by omega)
  case tuple =>
    refine .bind (.commaTail (fun _ => .isAt fun _ => .pure trivial le_rfl) fun _ _ => .starOrNamed h (by omega)) fun more hm => ?_
    exact .bind .expect fun close hc => .pure (.tuple (g.join hz hc) <| List.forall_mem_cons.mpr ⟨hf, hm⟩) (by omega)

theorem listAtom (h : b.Settles g depth b') (hn : n ≤ depth) (hz : g.Fits start) :
    SettlesExpr g n (Parser.listAtom b start) (Parser.listAtom b' start) := by
  refine .ifAt ?empty <| .bind (.starOrNamed h hn) fun first hf => .startsGenerators fun _ => .ite ?comprehension ?list
  case empty => exact .bind .next fun close hc => .pure (.list (g.join hz hc) nofun) le_rfl
  case comprehension =>
    refine .bind (.generators h (by omega)) fun _ _ => .bind .expect fun close hc => ?_
    exact .pure (.other (g.join hz hc) rfl) (by omega)
  case list =>
    refine .bind (.commaTail (fun _ => .isAt fun _ => .pure trivial le_rfl) fun _ _ => .starOrNamed h (by omega)) fun more hm => ?_
    exact .bind .expect fun close hc => .pure (.list (g.join hz hc) <| List.forall_mem_cons.mpr ⟨hf, hm⟩) (by omega)

theorem dictEntry (h : b.Settles g depth b') (hn : n ≤ depth) :
    SettlesStep g n (Parser.dictEntry b) (Parser.dictEntry b') := by
  refine .ifAccept (.bind (h.bitOr _ (by omega)) fun _ _ => .pure trivial (by omega)) ?_
  exact .bind (h.test n hn) fun _ _ => .bind .expect fun _ _ => .bind (h.test _ (by omega)) fun _ _ => .pure trivial (by omega)

theorem dictTail {first : DictEntry Expr} (h : b.Settles g depth b') (hn : n ≤ depth) (hz : g.Fits start) :
    SettlesExpr g n (Parser.dictTail b start first) (Parser.dictTail b' start first) := by
  refine .bind (.commaTail (fun _ => .isAt fun _ => .pure trivial le_rfl) fun _ _ => .dictEntry h (by omega)) fun _ _ => ?_
  exact .bind .expect fun close hc => .pure (.other (g.join hz hc) rfl) le_rfl

theorem braceAtom (h : b.Settles g depth b') (hn : n ≤ depth) (hz : g.Fits start) :
    SettlesExpr g n (Parser.braceAtom b start) (Parser.braceAtom b' start) := by
  refine .ifAt ?empty <| .ifAccept ?unpacked <| .bind (.starOrNamed h hn) fun first hf => .ifAccept ?keyed <|
    .startsGenerators fun _ => .ite ?comprehension ?set
  case empty    => exact .bind .next fun close hc => .pure (.other (g.join hz hc) rfl) le_rfl
  case unpacked => exact .bind (h.bitOr _ (by omega)) fun _ _ => (dictTail h (by omega) hz).behind (by omega)
  case keyed =>
    refine .bind (h.test _ (by omega)) fun _ _ => .startsGenerators fun _ => .ite ?_ ((dictTail h (by omega) hz).behind (by omega))
    refine .bind (.generators h (by omega)) fun _ _ => .bind .expect fun close hc => ?_
    exact .pure (.other (g.join hz hc) rfl) (by omega)
  case comprehension =>
    refine .bind (.generators h (by omega)) fun _ _ => .bind .expect fun close hc => ?_
    exact .pure (.other (g.join hz hc) rfl) (by omega)
  case set =>
    refine .bind (.commaTail (fun _ => .isAt fun _ => .pure trivial le_rfl) fun _ _ => .starOrNamed h (by omega)) fun _ _ => ?_
    exact .bind .expect fun close hc => .pure (.other (g.join hz hc) rfl) (by omega)

theorem adjacent {body? : Kind → Option String} :
    Settles g n (fun parts => ∀ p ∈ parts, g.Fits p.snd) (fun _ => n) (Parser.adjacent body?) (Parser.adjacent body?) := by
  refine .many fun k _ => .peek fun o => ?_
  split
  case h_1 => exact .bind .next fun t ht => .pure (by simpa) le_rfl
  case h_2 => exact .pure nofun le_rfl

theorem places_joinLiterals {make : String → Constant} {body : String} {z : Span} {more : List (String × Span)} (hz : g.Fits z)
    (hm : ∀ p ∈ more, g.Fits p.snd) : g.Places (joinLiterals make body z more) := by
  refine .other (?_ : g.Fits (more.foldl _ z)) rfl
  induction more generalizing z
  case nil => exact hz
  case cons p more hi =>
    obtain ⟨hp, hm⟩ := List.forall_mem_cons.mp hm
    exact hi (g.join hz hp) hm

theorem atom (h : b.Settles g depth b') (hn : n ≤ depth + 1) : SettlesExpr g n (Parser.atom b) (Parser.atom b') := by
  refine .bind .next fun t ht => ?_
  split
  case h_6 | h_7    => exact .bind .adjacent fun _ hm => .pure (places_joinLiterals ht hm) le_rfl
  case h_12         => exact (parenAtom h (by omega) ht).behind (Nat.sub_le n 1)
  case h_13         => exact (listAtom h (by omega) ht).behind (Nat.sub_le n 1)
  case h_14         => exact (braceAtom h (by omega) ht).behind (Nat.sub_le n 1)
  case h_15 | h_16 | h_17 | h_18 => exact .failAt nofun ht
  case h_1          => exact .pure (.target ht rfl) le_rfl
  all_goals exact .pure (.other ht rfl) le_rfl

-- Levels of precedence.

theorem trailer (h : b.Settles g depth b') (hn : n ≤ depth + 1) :
    Settles g n (fun o => ∀ t ∈ o, g.Fits t.span) (left n) (Parser.trailer b) (Parser.trailer b') := by
  refine .ifAccept ?call <| .ifAccept ?subscript <| .ifAccept ?attr (.pure nofun le_rfl)
  case call =>
    exact .bind (.arguments h (by omega)) fun _ _ => .bind .expect fun close hc => .pure (by simpa [Trailer.span]) (Nat.sub_le ..)
  case subscript =>
    refine .bind (.subscriptList h (by omega)) fun _ _ => .bind .expect fun close hc => .pure (by simpa [Trailer.span]) ?_
    simp only [left]
    omega
  case attr => exact .bind .ident fun name hm => .pure (by simpa [Trailer.span]) (Nat.sub_le ..)

theorem places_foldl_apply {e : Expr} {ts : List Trailer} (he : g.Places e) (ht : ∀ t ∈ ts, g.Fits t.span) :
    g.Places (ts.foldl Trailer.apply e) := by
  induction ts generalizing e
  case nil => exact he
  case cons t ts hi =>
    obtain ⟨hz, ht⟩ := List.forall_mem_cons.mp ht
    refine hi ?_ ht
    cases t
    case call                 => exact .other (g.join he.span hz) rfl
    case subscript | attr     => exact .target (g.join he.span hz) rfl

theorem primary (h : b.Settles g depth b') (hn : n ≤ depth + 1) : SettlesExpr g n (Parser.primary b) (Parser.primary b') :=
  .bind (.atom h hn) fun _ he => .bind (.many fun _ _ => .trailer h (by omega)) fun _ ht => .pure (places_foldl_apply he ht) le_rfl

theorem awaited (h : b.Settles g depth b') (hn : n ≤ depth + 1) : SettlesExpr g n (Parser.awaited b) (Parser.awaited b') := by
  refine .ifAt (.bind .next fun kw hk => .bind (.primary h (by omega)) fun value hv => ?_) (.primary h hn)
  exact .pure (.other (g.join hk hv.span) rfl) (by omega)

theorem power (h : b.Settles g depth b') (hn : n ≤ depth + 1) : SettlesExpr g n (Parser.power b) (Parser.power b') := by
  refine .bind (.awaited h hn) fun base hb => .ifAccept (.bind (h.factor _ (by omega)) fun exponent he => ?_) (.pure hb le_rfl)
  exact .pure (.other (g.join hb.span he.span) rfl) (by omega)

theorem factor (h : b.Settles g depth b') (hn : n ≤ depth + 1) : SettlesExpr g n (Parser.factor b) (Parser.factor b') := by
  refine .peek fun o => ?_
  split
  case h_1 =>
    refine .bind .next fun t ht => .bind (h.factor _ (by omega)) fun operand ho => ?_
    exact .pure (.other (g.join ht ho.span) rfl) (by omega)
  case h_2 => exact .power h hn

theorem places_foldl_binary {first : Expr} {more : List (BinaryOp × Expr)} (hf : g.Places first) (hm : ∀ p ∈ more, g.Places p.snd) :
    g.Places (more.foldl (fun left (op, right) => .binary (left.span.join right.span) left op right) first) := by
  induction more generalizing first
  case nil => exact hf
  case cons p more hi =>
    obtain ⟨hp, hm⟩ := List.forall_mem_cons.mp hm
    exact hi (.other (g.join hf.span hp.span) rfl) hm

theorem binaryLevel {op? : Kind → Option BinaryOp} (h : ∀ k ≤ n, SettlesExpr g k item item') :
    SettlesExpr g n (Parser.binaryLevel op? item) (Parser.binaryLevel op? item') := by
  refine .bind (h n le_rfl) fun first hf => .bind (.many (V := fun p => g.Places p.snd) fun k hk => .peek fun o => ?_) ?_
  case refine_1 =>
    split
    case h_1 => exact .bind .next fun _ _ => .bind (h _ (by omega)) fun right hr => .pure (by simpa) (Nat.sub_le ..)
    case h_2 => exact .pure nofun le_rfl
  case refine_2 => exact fun more hm => .pure (places_foldl_binary hf hm) le_rfl

theorem term (h : b.Settles g depth b') (hn : n ≤ depth + 1) : SettlesExpr g n (Parser.term b) (Parser.term b') :=
  .binaryLevel fun _ hk => .factor h (hk.trans hn)

theorem arith (h : b.Settles g depth b') (hn : n ≤ depth + 1) : SettlesExpr g n (Parser.arith b) (Parser.arith b') :=
  .binaryLevel fun _ hk => .term h (hk.trans hn)

theorem shift (h : b.Settles g depth b') (hn : n ≤ depth + 1) : SettlesExpr g n (Parser.shift b) (Parser.shift b') :=
  .binaryLevel fun _ hk => .arith h (hk.trans hn)

theorem bitAnd (h : b.Settles g depth b') (hn : n ≤ depth + 1) : SettlesExpr g n (Parser.bitAnd b) (Parser.bitAnd b') :=
  .binaryLevel fun _ hk => .shift h (hk.trans hn)

theorem bitXor (h : b.Settles g depth b') (hn : n ≤ depth + 1) : SettlesExpr g n (Parser.bitXor b) (Parser.bitXor b') :=
  .binaryLevel fun _ hk => .bitAnd h (hk.trans hn)

theorem bitOr (h : b.Settles g depth b') (hn : n ≤ depth + 1) : SettlesExpr g n (Parser.bitOr b) (Parser.bitOr b') :=
  .binaryLevel fun _ hk => .bitXor h (hk.trans hn)

theorem compareOp : Settles g n (fun _ => True) (left n) Parser.compareOp Parser.compareOp := by
  have single {k} {op : CompareOp} (hk : k ≤ n) : Settles g k (fun _ => True) (left n) (do let _ ← Parser.next; return some op)
      (do let _ ← Parser.next; return some op) := .bind .next fun _ _ => .pure trivial (Nat.sub_le_sub_right hk 1)
  have double {op : CompareOp} : Settles g n (fun _ => True) (left n) (do let _ ← Parser.next; let _ ← Parser.next; return some op)
      (do let _ ← Parser.next; let _ ← Parser.next; return some op) := .bind .next fun _ _ => single (Nat.sub_le n 1)
  refine .view (fun _ _ => rfl) fun c => ?_
  split
  case h_8 => exact .ite double (.pure trivial le_rfl)
  case h_9 => exact .ite double (single le_rfl)
  case h_10 => exact .pure trivial le_rfl
  all_goals exact single le_rfl

theorem comparison (h : b.Settles g depth b') (hn : n ≤ depth + 1) : SettlesExpr g n (Parser.comparison b) (Parser.comparison b') := by
  refine .bind (.bitOr h hn) fun left hl => .bind (.many (V := fun _ => True) fun k hk => .bind .compareOp fun o _ => ?_) fun _ _ => ?_
  case refine_1 =>
    cases o
    case none => exact .pure nofun le_rfl
    case some => exact .bind (.bitOr h (by simp only [Parser.left]; omega)) fun _ _ => .pure (fun _ _ => trivial) (Nat.sub_le ..)
  case refine_2 =>
    exact .ite (.pure hl le_rfl) <| .previous fun z hz => .pure (.other (g.join hl.span hz) rfl) le_rfl

theorem notTest (h : b.Settles g depth b') (hn : n ≤ depth + 1) : SettlesExpr g n (Parser.notTest b) (Parser.notTest b') := by
  refine .ifAt (.bind .next fun kw hk => .bind (h.notTest _ (by omega)) fun operand ho => ?_) (.comparison h hn)
  exact .pure (.other (g.join hk ho.span) rfl) (by omega)

theorem boolLevel {word : Keyword} {op : BoolOp} (h : ∀ k ≤ n, SettlesExpr g k item item') :
    SettlesExpr g n (Parser.boolLevel word op item) (Parser.boolLevel word op item') := by
  refine .bind (h n le_rfl) fun first hf => .bind (.many fun k hk => .afterStep (h (k - 1) (by omega)) (Nat.sub_le ..)) fun more hm => ?_
  split
  case h_1 last hl =>
    exact .pure (.other (g.join hf.span (hm _ <| List.mem_of_getLast? hl).span) rfl) le_rfl
  case h_2 => exact .pure hf le_rfl

theorem andTest (h : b.Settles g depth b') (hn : n ≤ depth + 1) : SettlesExpr g n (Parser.andTest b) (Parser.andTest b') :=
  .boolLevel fun _ hk => .notTest h (hk.trans hn)

theorem orTest (h : b.Settles g depth b') (hn : n ≤ depth + 1) : SettlesExpr g n (Parser.orTest b) (Parser.orTest b') :=
  .boolLevel fun _ hk => .andTest h (hk.trans hn)

theorem lambda (h : b.Settles g depth b') (hn : n ≤ depth + 1) : SettlesExpr g n (Parser.lambda b) (Parser.lambda b') := by
  refine .bind .expect fun kw hk => .bind (.params h (by omega)) fun _ _ => .bind .expect fun _ _ => .bind (h.test _ (by omega)) fun body hb => ?_
  exact .pure (.other (g.join hk hb.span) rfl) (by omega)

theorem test (h : b.Settles g depth b') (hn : n ≤ depth + 1) : SettlesExpr g n (Parser.test b) (Parser.test b') := by
  refine .ifAt (.lambda h hn) <| .bind (.orTest h hn) fun body hb => .ifAccept ?_ (.pure hb le_rfl)
  refine .bind (.orTest h (by omega)) fun _ _ => .bind .expect fun _ _ => .bind (h.test _ (by omega)) fun orelse ho => ?_
  exact .pure (.other (g.join hb.span ho.span) rfl) (by omega)

end Settles
end Parser

-- What is nested goes less deep than there are tokens.
theorem Below.Settles.ofDepth {depth i j : Nat} (hi : depth ≤ i) (hj : depth ≤ j) : (Below.ofDepth i).Settles g depth (Below.ofDepth j) := by
  refine Parser.fuel_induction (P := fun n b b' => Below.Settles g n b b') (fun _ _ => ?_) (fun k _ hk i j hr => ?_) hi hj
  case refine_1 => constructor <;> exact fun n hn => Nat.le_zero.mp hn ▸ .zero
  case refine_2 =>
    have h := hr (k - 1) (by omega)
    obtain ⟨k, rfl⟩ := Nat.exists_eq_add_of_le' hk
    exact ⟨fun _ => .test h, fun _ => .orTest h, fun _ => .notTest h, fun _ => .bitOr h, fun _ => .factor h⟩

end PyVerify
