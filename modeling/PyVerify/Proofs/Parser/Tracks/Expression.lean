import PyVerify.Parser.Expression
import PyVerify.Proofs.Parser.Runs
import PyVerify.Proofs.Parser.Tracks

namespace PyVerify

open Token (Kind Keyword Mark)

variable {f g : Recasting}

-- A parser that takes a token or more, the last of them no colon.
abbrev Parser.Operand {α : Type} [Recast α] (B : Bridge f g) (p p' : Parser α) : Prop :=
  ∀ m a, Parser.Tracks (B.rel m a) (Same f g) (B.rel m true) p p'

-- The parsers for what is nested in an expression.
structure Below.Tracks (B : Bridge f g) (b b' : Below) : Prop where
  test    : Parser.Operand B b.test b'.test
  orTest  : Parser.Operand B b.orTest b'.orTest
  notTest : Parser.Operand B b.notTest b'.notTest
  bitOr   : Parser.Operand B b.bitOr b'.bitOr
  factor  : Parser.Operand B b.factor b'.factor

namespace Parser

instance : Recast ParamsSoFar :=
  ⟨fun f s => ⟨s.params.map (Param.recast f), s.keywordOnly⟩⟩

instance : Recast Arguments :=
  ⟨fun f s => ⟨s.args.map (Expr.recast f), s.keywords.map (KeywordArg.recast f)⟩⟩

def Trailer.recast (f : Recasting) : Trailer → Trailer
  | .call args close        => .call (Recast.recast f args) (f.place close)
  | .subscript index close  => .subscript (index.recast f) (f.place close)
  | .attr name              => .attr (name.recast f)

instance : Recast Trailer :=
  ⟨Trailer.recast⟩

@[simp] theorem recast_call (s : Arguments) (z : Span) :
    Recast.recast f (Trailer.call s z) = .call (Recast.recast f s) (f.place z) := rfl

@[simp] theorem recast_subscript (e : Expr) (z : Span) :
    Recast.recast f (Trailer.subscript e z) = .subscript (e.recast f) (f.place z) := rfl

@[simp] theorem recast_attr (i : Ident) : Recast.recast f (Trailer.attr i) = .attr (i.recast f) := rfl

@[simp] theorem recast_paramsSoFar (s : ParamsSoFar) :
    Recast.recast f s = ⟨s.params.map (Param.recast f), s.keywordOnly⟩ := rfl

@[simp] theorem recast_arguments (s : Arguments) :
    Recast.recast f s = ⟨s.args.map (Expr.recast f), s.keywords.map (KeywordArg.recast f)⟩ := rfl

namespace Tracks

variable {B : Bridge f g} {b b' : Below} {m : Nat} {a : Bool} {start start' : Span}

theorem not_startsExpr : Tracks (B.rel m a) Eq (B.rel m a) (return !(← Parser.startsExpr)) (return !(← Parser.startsExpr)) :=
  .bind startsExpr fun _ _ hx => .pure (congrArg not hx)

theorem sequence {p p' : Parser Expr} (h : Operand B p p') : Operand B (Parser.sequence p) (Parser.sequence p') := by
  intro m a
  refine .bind (h m a) fun e e' he => .ifAt rfl ?_ (.pure he)
  refine .seen <| .bind (.commaTail not_startsExpr <| h m true) fun es es' hes => .previous fun z w hz => .pure ?_
  have hs := he.span
  simp_all

theorem starred (h : b.Tracks B b') : Operand B (Parser.starred b) (Parser.starred b') := by
  intro m a
  refine .bind (.expect <| .plain rfl) fun t u ht => .bind (h.bitOr m true) fun e e' he => .pure ?_
  have hs := he.span
  simp_all [ht.span]

theorem namedTest (h : b.Tracks B b') : Operand B (Parser.namedTest b) (Parser.namedTest b') := by
  intro m a
  refine .bind (h.test m a) fun e e' he => .ifAt rfl (.ite he.isName ?_ .failAt) (.pure he)
  refine .bind (.nextAt <| .plain rfl) fun _ _ _ => .bind (h.test m true) fun v v' hv => .pure ?_
  have hs := he.span
  have hv' := hv.span
  simp_all

theorem starOrNamed (h : b.Tracks B b') : Operand B (Parser.starOrNamed b) (Parser.starOrNamed b') :=
  fun m a => .ifAt rfl (.seen <| starred h m a) (namedTest h m a)

theorem exprList (h : b.Tracks B b') : Operand B (Parser.exprList b) (Parser.exprList b') :=
  sequence (starOrNamed h)

theorem targetList (h : b.Tracks B b') : Operand B (Parser.targetList b) (Parser.targetList b') :=
  sequence fun m a => .ifAt rfl (.seen <| starred h m a) (h.bitOr m a)

theorem checkTarget {S : Cursor → Cursor → Prop} {e e' : Expr} (h : Same f g e e') :
    Tracks S Eq S (Parser.checkTarget e) (Parser.checkTarget e') := by
  have he := h.assignable
  unfold Parser.checkTarget
  cases hp : e.unassignable?
  case some => exact .failAt
  case none =>
    rw [hp, Option.isSome_none, eq_comm, Option.isSome_eq_false_iff, Option.isNone_iff_eq_none] at he
    rw [he]
    exact .pure rfl

theorem annotation (h : b.Tracks B b') {allowed : Bool} :
    Tracks (B.rel m true) (Same f g) (B.rel m true) ( Parser.annotation b allowed) ( Parser.annotation b' allowed) :=
  .ite rfl (.after .colon <| h.test m false) (.pure rfl)

theorem param (h : b.Tracks B b') {close : Kind} (hc : close.isName = false) {allowed : Bool} {s s' : ParamsSoFar} (hs : Same f g s s') :
    Tracks (B.rel m true) (Same f g) (B.rel m true) (Parser.param b close allowed s) (Parser.param b' close allowed s') := by
  refine .here fun z z' hz => .ifAccept (.plain rfl) (.pure hs) <| .ifAccept (.plain rfl) ?keywords <| .ifAccept (.plain rfl) ?star ?plain
  case keywords =>
    refine .bind .ident fun i i' hi => .bind ( annotation h) fun o o' ho => .previous fun w w' hw => .pure ?_
    simp_all
  case star =>
    refine .bind (.isAt rfl) fun x y hx => .bind (.isAt hc) fun x' y' hx' => .ite (by rw [hx, hx']) (.pure ?_) ?_
    case refine_1 => simp_all
    case refine_2 =>
      refine .bind .ident fun i i' hi => .bind ( annotation h) fun o o' ho => .previous fun w w' hw => .pure ?_
      simp_all
  case plain =>
    refine .bind .ident fun i i' hi => .bind ( annotation h) fun o o' ho => ?_
    refine .bind (.after (.plain rfl) <| h.test m true) fun d d' hd => .previous fun w w' hw => .pure ?_
    simp_all

theorem params (h : b.Tracks B b') {close : Kind} (hc : close.isName = false) {allowed : Bool} :
    Tracks (B.rel m true) (Same f g) (B.rel m true) (Parser.params b close allowed) (Parser.params b' close allowed) :=
  .bind (.foldItems hc (fun _ _ => param h hc) rfl) fun s s' hs => .pure (by simp_all)

theorem startsGenerators : Tracks (B.rel m a) Eq (B.rel m a) Parser.startsGenerators Parser.startsGenerators :=
  .bind (.isAt rfl) fun _ _ hx => .bind (.isAt rfl) fun _ _ hy => .pure (by rw [hx, hy])

-- A part of a comprehension, from its `for` on.
theorem generator (h : b.Tracks B b') {isAsync : Bool} :
    Tracks (B.rel m true) (Same f g) (B.rel m true)
      (do
        let _ ← Parser.expect Keyword.kwFor
        let target ← Parser.targetList b
        Parser.checkTarget target
        let _ ← Parser.expect Keyword.kwIn
        let iter ← b.orTest
        let conditions ← Parser.many (Parser.after Keyword.kwIf b.orTest)
        return some (Generator.mk target iter conditions isAsync))
      (do
        let _ ← Parser.expect Keyword.kwFor
        let target ← Parser.targetList b'
        Parser.checkTarget target
        let _ ← Parser.expect Keyword.kwIn
        let iter ← b'.orTest
        let conditions ← Parser.many (Parser.after Keyword.kwIf b'.orTest)
        return some (Generator.mk target iter conditions isAsync)) := by
  refine .bind (.expect <| .plain rfl) fun _ _ _ => .bind (targetList h m true) fun e e' he => .bind (checkTarget he) fun _ _ _ => ?_
  refine .bind (.expect <| .plain rfl) fun _ _ _ => .bind (h.orTest m true) fun i i' hi => ?_
  refine .bind (.many_items <| .after (.plain rfl) <| h.orTest m true) fun cs cs' hcs => .pure ?_
  simp_all

theorem generators (h : b.Tracks B b') :
    Tracks (B.rel m true) (Same f g) (B.rel m true) (Parser.generators b) (Parser.generators b') := by
  refine .many_items <| .isAtThen rfl (.bind (.isAtAhead rfl) fun x y hx => .ite (by rw [hx]) ?_ (.seen <| .pure rfl)) ?_
  case refine_1 => exact .bind (.nextAt <| .plain rfl) fun _ _ _ => generator h
  case refine_2 => exact .bind (.isAt rfl) fun x y hx => .ite (by rw [hx]) (generator h) (.pure rfl)

-- A name with an equals sign behind it is next.
def NamesNext (S : Cursor → Cursor → Prop) (c d : Cursor) : Prop :=
  S c d ∧ c.secondKind? = some (.mark .assign)

theorem startsKeywordArg_eq (c : Cursor) : ∃ x, Parser.startsKeywordArg c = .ok (x, c) ∧
    (x = true ↔ (∃ text, c.kind? = some (.name text)) ∧ c.secondKind? = some (.mark .assign)) := by
  obtain ⟨x, _, h, rfl, hx⟩ : Runs c (fun x d => d = c ∧ (x = true ↔ (∃ text, c.kind? = some (.name text)) ∧
      c.secondKind? = some (.mark .assign))) Parser.startsKeywordArg := by
    refine .get ?_
    split
    case h_1 text hc hs => exact .pure ⟨rfl, by simp [hc, hs]⟩
    case h_2 hn =>
      refine .pure ⟨rfl, iff_of_false Bool.false_ne_true ?_⟩
      rintro ⟨⟨text, hc⟩, hs⟩
      exact hn text hc hs
  exact ⟨x, h, hx⟩

theorem namesNext_iff {c d : Cursor} (hs : B.rel m a c d) :
    (∃ text, c.kind? = some (.name text)) ∧ c.secondKind? = some (.mark .assign) ↔
      (∃ text, d.kind? = some (.name text)) ∧ d.secondKind? = some (.mark .assign) := by
  rw [← (B.head hs).kind?_eq_name_iff]
  refine and_congr_right fun ⟨text, hc⟩ => ?_
  obtain ⟨t, ts, u, us, hc, hd, ht, -⟩ := (B.head hs).taken hc
  exact B.secondKind?_eq_some_iff hs hc hd (n := m) (b := true) (ht ▸ .name) rfl

theorem startsKeywordArg {α β : Type} {V : α → β → Prop} {S : Cursor → Cursor → Prop} {p p' : Parser α} {q q' : Parser β}
    (ht : Tracks (NamesNext (B.rel m a)) V S p q) (hf : Tracks (B.rel m a) V S p' q') :
    Tracks (B.rel m a) V S (Parser.startsKeywordArg >>= fun x => if x then p else p')
      (Parser.startsKeywordArg >>= fun x => if x then q else q') := by
  intro c d hs
  obtain ⟨x, hx, hc⟩ := startsKeywordArg_eq c
  obtain ⟨y, hy, hd⟩ := startsKeywordArg_eq d
  obtain rfl : x = y := Bool.eq_iff_iff.mpr <| hc.trans <| (namesNext_iff hs).trans hd.symm
  rw [bind_eq hx, bind_eq hy]
  cases x
  case false  => exact hf c d hs
  case true   => exact ht c d ⟨hs, (hc.mp rfl).right⟩

theorem keywordName : Tracks (NamesNext (B.rel m a)) (Same f g) (Ahead (some Mark.assign) (B.rel m true)) Parser.ident Parser.ident := by
  rintro ⟨previous, _ | ⟨⟨kind, z⟩, ts⟩, last, size⟩ d ⟨hs, hc⟩ i c' hp
  case nil => cases hp
  case cons =>
    obtain ⟨i', d', hq, hi, hs⟩ := ident _ d hs i c' hp
    refine ⟨i', d', hq, hi, hs, ?_⟩
    cases kind
    case name =>
      cases hp
      simpa [Cursor.kind?, Cursor.secondKind?, List.head?_eq_getElem?] using hc
    all_goals cases hp

theorem argument (h : b.Tracks B b') {s s' : Arguments} (hs : Same f g s s') :
    Tracks (B.rel m true) (Same f g) (B.rel m true) (Parser.argument b s) (Parser.argument b' s') := by
  refine .ifAt rfl (.bind (.nextAt <| .plain rfl) fun t u ht => ?star) <| .ifAt rfl (.bind (.nextAt <| .plain rfl) fun t u ht => ?stars) <|
    .startsKeywordArg (.bind keywordName fun i i' hi => .bind (.nextAt <| .plain rfl) fun _ _ _ => ?byName) ?_
  case star =>
    refine .bind (h.test m true) fun e e' he => .pure ?_
    have hz := he.span
    simp_all [ht.left.span]
  case stars =>
    refine .bind (h.test m true) fun e e' he => .pure ?_
    have hz := he.span
    simp_all [ht.left.span]
  case byName =>
    refine .bind (h.test m true) fun e e' he => .pure ?_
    have hz := he.span
    simp_all
  refine .bind (namedTest h m true) fun e e' he => .bind startsGenerators fun x y hx => .ite hx ?_ (.pure ?_)
  case refine_1 =>
    refine .bind (generators h) fun gs gs' hgs => .previous fun w w' hw => .pure ?_
    have hz := he.span
    simp_all
  case refine_2 => simp_all

theorem arguments (h : b.Tracks B b') :
    Tracks (B.rel m true) (Same f g) (B.rel m true) (Parser.arguments b) (Parser.arguments b') :=
  .foldItems rfl (fun _ _ => argument h) rfl

theorem optionalTest (h : b.Tracks B b') :
    Tracks (B.rel m false) (Same f g) (B.rel m false) (Parser.optionalTest b) (Parser.optionalTest b') := by
  refine .bind startsExpr fun x y hx => .ite hx (.bind (.loosen <| h.test m false) fun e e' he => .pure ?_) (.pure rfl)
  simp_all

-- A slice may end in a colon.
theorem sliceTail (h : b.Tracks B b') (hz : f.place start = g.place start') {o o' : Option Expr} (ho : Same f g o o') :
    Tracks (B.rel m a) (Same f g) (B.rel m false) (Parser.sliceTail b start o) (Parser.sliceTail b' start' o') := by
  refine .bind (.expect .colon) fun _ _ _ => .bind (optionalTest h) fun u u' hu => .bind (.after .colon <| optionalTest h) ?_
  refine fun s s' hs => .previous fun w w' hw => .pure ?_
  have hj : Same f g s.join s'.join := by
    rcases s with _ | _ | _ <;> rcases s' with _ | _ | _ <;> simp_all
  simp_all

theorem subscriptItem (h : b.Tracks B b') :
    Tracks (B.rel m a) (Same f g) (B.rel m false) (Parser.subscriptItem b) (Parser.subscriptItem b') := by
  refine .here fun z z' hz => .ifAt rfl (.seen <| sliceTail h hz rfl) <| .bind (starOrNamed h m a) fun e e' he => ?_
  exact .ifAt rfl (.seen <| sliceTail h hz (by simp_all)) (.loosen <| .pure he)

theorem subscriptList (h : b.Tracks B b') :
    Tracks (B.rel m a) (Same f g) (B.rel m false) (Parser.subscriptList b) (Parser.subscriptList b') := by
  refine .bind (subscriptItem h) fun e e' he => .ifAt rfl ?_ (.pure he)
  refine .seen <| .bind (.commaTail (.isAt rfl) <| subscriptItem h) fun es es' hes => .previous fun w w' hw => .pure ?_
  have hz := he.span
  simp_all

theorem yieldExpr (h : b.Tracks B b') : Operand B (Parser.yieldExpr b) (Parser.yieldExpr b') := by
  intro m a
  refine .bind (.expect <| .plain rfl) fun t u ht => .ifAccept (.plain rfl) (.bind (h.test m true) fun e e' he => .pure ?_) ?_
  case refine_1 =>
    have hz := he.span
    simp_all [ht.span]
  refine .bind startsExpr fun x y hx => .ite hx ?_ (.previous fun w w' hw => .pure ?_)
  case refine_1 =>
    refine .bind (exprList h m true) fun e e' he => .previous fun w w' hw => .pure ?_
    simp_all [ht.span]
  case refine_2 => simp_all [ht.span]

-- What stands in brackets.

theorem parenAtom (h : b.Tracks B b') (hz : f.place start = g.place start') :
    Tracks (B.rel (m + 1) true) (Same f g) (B.rel m true) (Parser.parenAtom b start) (Parser.parenAtom b' start') := by
  refine .ifAt rfl (.bind (.nextAt <| .closes rfl) fun t u ht => .pure ?_) <| .ifAt rfl (.seen ?_) <| .bind (starOrNamed h _ _) fun e e' he => ?_
  case refine_1 => simp_all [ht.left.span]
  case refine_2 => exact .bind (yieldExpr h _ _) fun e e' he => .bind (.expect <| .closes rfl) fun _ _ _ => .pure he
  refine .bind startsGenerators fun x y hx => .ite hx ?_ <| .ifAt rfl (.seen ?_) <| .bind (.expect <| .closes rfl) fun _ _ _ => .pure he
  case refine_1 =>
    refine .bind (generators h) fun gs gs' hgs => .bind (.expect <| .closes rfl) fun t u ht => .pure ?_
    simp_all [ht.span]
  case refine_2 =>
    refine .bind (.commaTail (.isAt rfl) <| starOrNamed h _ _) fun es es' hes => .bind (.expect <| .closes rfl) fun t u ht => .pure ?_
    simp_all [ht.span]

theorem listAtom (h : b.Tracks B b') (hz : f.place start = g.place start') :
    Tracks (B.rel (m + 1) true) (Same f g) (B.rel m true) (Parser.listAtom b start) (Parser.listAtom b' start') := by
  refine .ifAt rfl (.bind (.nextAt <| .closes rfl) fun t u ht => .pure ?_) <| .bind (starOrNamed h _ _) fun e e' he => ?_
  case refine_1 => simp_all [ht.left.span]
  refine .bind startsGenerators fun x y hx => .ite hx ?_ ?_
  case refine_1 =>
    refine .bind (generators h) fun gs gs' hgs => .bind (.expect <| .closes rfl) fun t u ht => .pure ?_
    simp_all [ht.span]
  case refine_2 =>
    refine .bind (.commaTail (.isAt rfl) <| starOrNamed h _ _) fun es es' hes => .bind (.expect <| .closes rfl) fun t u ht => .pure ?_
    simp_all [ht.span]

theorem dictEntry (h : b.Tracks B b') : Operand B (Parser.dictEntry b) (Parser.dictEntry b') := by
  intro m a
  refine .ifAccept (.plain rfl) (.bind (h.bitOr m true) fun e e' he => .pure ?_) <| .bind (h.test m a) fun k k' hk => ?_
  case refine_1 => simp_all
  refine .bind (.expect .colon) fun _ _ _ => .bind (h.test m false) fun v v' hv => .pure ?_
  simp_all

theorem dictTail (h : b.Tracks B b') (hz : f.place start = g.place start') {e e' : DictEntry Expr} (he : Same f g e e') :
    Tracks (B.rel (m + 1) true) (Same f g) (B.rel m true) (Parser.dictTail b start e) (Parser.dictTail b' start' e') := by
  refine .bind (.commaTail (.isAt rfl) <| dictEntry h _ _) fun es es' hes => .bind (.expect <| .closes rfl) fun t u ht => .pure ?_
  simp_all [ht.span]

theorem braceAtom (h : b.Tracks B b') (hz : f.place start = g.place start') :
    Tracks (B.rel (m + 1) true) (Same f g) (B.rel m true) (Parser.braceAtom b start) (Parser.braceAtom b' start') := by
  refine .ifAt rfl (.bind (.nextAt <| .closes rfl) fun t u ht => .pure ?_) <| .ifAccept (.plain rfl) ?_ <| .bind (starOrNamed h _ _) fun e e' he => ?_
  case refine_1 => simp_all [ht.left.span]
  case refine_2 => exact .bind (h.bitOr _ _) fun e e' he => dictTail h hz (by simp_all)
  refine .ifAccept .colon (.bind (h.test _ _) fun v v' hv => ?_) <| .bind startsGenerators fun x y hx => .ite hx ?_ ?_
  case refine_1 =>
    refine .bind startsGenerators fun x y hx => .ite hx ?_ <| dictTail h hz (by simp_all)
    refine .bind (generators h) fun gs gs' hgs => .bind (.expect <| .closes rfl) fun t u ht => .pure ?_
    simp_all [ht.span]
  case refine_2 =>
    refine .bind (generators h) fun gs gs' hgs => .bind (.expect <| .closes rfl) fun t u ht => .pure ?_
    simp_all [ht.span]
  case refine_3 =>
    refine .bind (.commaTail (.isAt rfl) <| starOrNamed h _ _) fun es es' hes => .bind (.expect <| .closes rfl) fun t u ht => .pure ?_
    simp_all [ht.span]

theorem adjacent {body? : Kind → Option String} (hs : Kind.Signs body?) :
    Tracks (B.rel m true) (Same f g) (B.rel m true) (Parser.adjacent body?) (Parser.adjacent body?) := by
  refine .many_items <| .peekSign hs (fun k w hk => ?_) fun o o' ho ho' => ?_
  case refine_1 =>
    rw [Option.bind_some, hk]
    refine .bind (.nextAt <| .plain <| hs.plain k w hk) fun t u ht => .pure ?_
    simp_all [ht.left.span]
  case refine_2 =>
    rw [ho, ho']
    exact .pure rfl

theorem joinLiterals {make : String → Constant} {body : String} {more more' : List (String × Span)} (hm : Same f g more more')
    {z z' : Span} (hz : f.place z = g.place z') :
    Same f g (Parser.joinLiterals make body z more) (Parser.joinLiterals make body z' more') := by
  unfold Parser.joinLiterals
  induction more generalizing more' body z z' <;> cases more'
  case nil.nil => simp [hz]
  case cons.cons part more hi part' more' =>
    simp only [Same, recast_list, recast_prod, recast_string, recast_span, List.map_cons, List.cons.injEq, Prod.ext_iff, Prod.map] at hm
    obtain ⟨⟨hb, hs⟩, hm⟩ := hm
    have hj : f.place (z.join part.2) = g.place (z'.join part'.2) := by simp [hz, hs]
    have ht : part.1 = part'.1 := hb
    rw [List.foldl_cons, List.foldl_cons, List.foldl_cons, List.foldl_cons, ht]
    exact hi hm hj
  all_goals simp at hm

theorem signs_strBody? : Kind.Signs strBody? := by
  refine ⟨fun _ => rfl, fun k w h => ?_⟩
  cases k <;> first | rfl | cases h

theorem signs_bytesBody? : Kind.Signs bytesBody? := by
  refine ⟨fun _ => rfl, fun k w h => ?_⟩
  cases k <;> first | rfl | cases h

theorem literal {z z' : Span} (hz : f.place z = g.place z') {c : Constant} {k : Kind} (hk : k.isPlain) :
    Tracks (Cursor.Took B m a k) (Same f g) (B.rel m true) (Pure.pure <| Expr.constant z c) (Pure.pure <| Expr.constant z' c) :=
  .took (.pure <| by simp [hz]) (.plain hk)

theorem atom (h : b.Tracks B b') : Operand B (Parser.atom b) (Parser.atom b') := by
  intro m a
  refine .next fun t u ht => ?_
  have hz := ht.span
  split
  case h_1 id hk =>
    obtain ⟨id', hu, hn⟩ := Kind.name_of_recast (hk ▸ ht.kind)
    rw [hu, hk]
    refine .before (.pure ?_) fun c d hs => hs m true .name
    simp_all
  case h_6 hk =>
    rw [ht.kind_eq hk rfl, hk]
    exact .took (.bind (adjacent signs_strBody?) fun _ _ hs => .pure <| joinLiterals hs hz) (.plain rfl)
  case h_7 hk =>
    rw [ht.kind_eq hk rfl, hk]
    exact .took (.bind (adjacent signs_bytesBody?) fun _ _ hs => .pure <| joinLiterals hs hz) (.plain rfl)
  case h_12 hk =>
    rw [ht.kind_eq hk rfl, hk]
    exact .took (parenAtom h hz) (.opens rfl)
  case h_13 hk =>
    rw [ht.kind_eq hk rfl, hk]
    exact .took (listAtom h hz) (.opens rfl)
  case h_14 hk =>
    rw [ht.kind_eq hk rfl, hk]
    exact .took (braceAtom h hz) (.opens rfl)
  all_goals first
    | exact .failAt
    | rename_i hk
      rw [ht.kind_eq hk rfl, hk]
      exact literal hz rfl

-- What stands behind an atom.

@[simp] theorem recast_trailer_apply (e : Expr) (x : Trailer) :
    (x.apply e).recast f = (Recast.recast f x : Trailer).apply (e.recast f) := by
  cases x <;> simp [Trailer.apply]

theorem recast_foldl_apply (xs : List Trailer) (e : Expr) :
    (xs.foldl Trailer.apply e).recast f = (xs.map (Recast.recast f)).foldl Trailer.apply (e.recast f) := by
  induction xs generalizing e <;> simp_all

theorem trailer (h : b.Tracks B b') :
    Tracks (B.rel m true) (Same f g) (B.rel m true) (Parser.trailer b) (Parser.trailer b') := by
  refine .ifAccept (.opens rfl) ?call <| .ifAccept (.opens rfl) ?subscript <| .ifAccept (.plain rfl) ?attr (.pure rfl)
  case call =>
    refine .bind (arguments h) fun s s' hs => .bind (.expect <| .closes rfl) fun t u ht => .pure ?_
    simp_all [ht.span]
  case subscript =>
    refine .bind (subscriptList h) fun e e' he => .bind (.expect <| .closes rfl) fun t u ht => .pure ?_
    simp_all [ht.span]
  case attr =>
    refine .bind .ident fun i i' hi => .pure ?_
    simp_all

theorem primary (h : b.Tracks B b') : Operand B (Parser.primary b) (Parser.primary b') := by
  intro m a
  refine .bind (atom h m a) fun e e' he => .bind (.many_items <| trailer h) fun xs xs' hxs => .pure ?_
  simp_all [recast_foldl_apply]

theorem awaited (h : b.Tracks B b') : Operand B (Parser.awaited b) (Parser.awaited b') := by
  intro m a
  refine .ifAt rfl (.bind (.nextAt <| .plain rfl) fun t u ht => .bind (primary h m true) fun e e' he => .pure ?_) (primary h m a)
  have hz := he.span
  simp_all [ht.left.span]

theorem power (h : b.Tracks B b') : Operand B (Parser.power b) (Parser.power b') := by
  intro m a
  refine .bind (awaited h m a) fun e e' he => .ifAccept (.plain rfl) (.bind (h.factor m true) fun x x' hx => .pure ?_) (.pure he)
  have hz := he.span
  have hw := hx.span
  simp_all

theorem signs_signOf? : Kind.Signs signOf? := by
  refine ⟨fun _ => rfl, fun k w h => ?_⟩
  unfold signOf? at h
  split at h <;> first | rfl | cases h

theorem factor (h : b.Tracks B b') : Operand B (Parser.factor b) (Parser.factor b') := by
  intro m a
  refine .peekSign signs_signOf? (fun k op hk => ?_) fun o o' ho ho' => ?_
  case refine_1 =>
    rw [Option.bind_some, hk]
    refine .bind (.nextAt <| .plain <| signs_signOf?.plain k op hk) fun t u ht => .bind (h.factor m true) fun e e' he => .pure ?_
    have hz := he.span
    simp_all [ht.left.span]
  case refine_2 =>
    rw [ho, ho']
    exact power h m a

theorem recast_foldl_binary (links : List (BinaryOp × Expr)) (e : Expr) :
    (links.foldl (fun left (op, right) => .binary (left.span.join right.span) left op right) e).recast f =
      (links.map (Prod.map id (Expr.recast f))).foldl (fun left (op, right) => .binary (left.span.join right.span) left op right)
        (e.recast f) := by
  induction links generalizing e <;> simp_all

theorem binaryLevel {op? : Kind → Option BinaryOp} (hs : Kind.Signs op?) {p p' : Parser Expr} (h : Operand B p p') :
    Operand B (Parser.binaryLevel op? p) (Parser.binaryLevel op? p') := by
  intro m a
  refine .bind (h m a) fun e e' he => .bind (.many_items <| .peekSign hs (fun k op hk => ?_) fun o o' ho ho' => ?_) fun ls ls' hls => .pure ?_
  case refine_1 =>
    rw [Option.bind_some, hk]
    refine .bind (.nextAt <| .plain <| hs.plain k op hk) fun _ _ _ => .bind (h m true) fun e e' he => .pure ?_
    simp_all
  case refine_2 =>
    rw [ho, ho']
    exact .pure rfl
  case refine_3 => simp_all [recast_foldl_binary]

theorem signs_termOp? : Kind.Signs termOp? := by
  refine ⟨fun _ => rfl, fun k op h => ?_⟩
  unfold termOp? at h
  split at h <;> first | rfl | cases h

theorem signs_arithOp? : Kind.Signs arithOp? := by
  refine ⟨fun _ => rfl, fun k op h => ?_⟩
  unfold arithOp? at h
  split at h <;> first | rfl | cases h

theorem signs_shiftOp? : Kind.Signs shiftOp? := by
  refine ⟨fun _ => rfl, fun k op h => ?_⟩
  unfold shiftOp? at h
  split at h <;> first | rfl | cases h

theorem signs_bitAndOp? : Kind.Signs bitAndOp? := by
  refine ⟨fun _ => rfl, fun k op h => ?_⟩
  unfold bitAndOp? at h
  split at h <;> first | rfl | cases h

theorem signs_bitXorOp? : Kind.Signs bitXorOp? := by
  refine ⟨fun _ => rfl, fun k op h => ?_⟩
  unfold bitXorOp? at h
  split at h <;> first | rfl | cases h

theorem signs_bitOrOp? : Kind.Signs bitOrOp? := by
  refine ⟨fun _ => rfl, fun k op h => ?_⟩
  unfold bitOrOp? at h
  split at h <;> first | rfl | cases h

theorem bitOr (h : b.Tracks B b') : Operand B (Parser.bitOr b) (Parser.bitOr b') :=
  have hf : Operand B (Parser.factor b) (Parser.factor b') := factor h
  have ht : Operand B (Parser.term b) (Parser.term b') := binaryLevel signs_termOp? hf
  have ha : Operand B (Parser.arith b) (Parser.arith b') := binaryLevel signs_arithOp? ht
  have hs : Operand B (Parser.shift b) (Parser.shift b') := binaryLevel signs_shiftOp? ha
  have hb : Operand B (Parser.bitAnd b) (Parser.bitAnd b') := binaryLevel signs_bitAndOp? hs
  binaryLevel signs_bitOrOp? <| binaryLevel signs_bitXorOp? hb

theorem takes {k : Kind} (hk : k.isPlain) {op : CompareOp} : Tracks (Ahead (some k) (B.rel m true)) Eq (B.rel m true)
    (do let _ ← Parser.next; return some op) (do let _ ← Parser.next; return some op) :=
  .bind (.nextAt <| .plain hk) fun _ _ _ => .pure rfl

theorem compareOp : Tracks (B.rel m true) Eq (B.rel m true) Parser.compareOp Parser.compareOp := by
  refine .get fun c d hs => ?_
  have here {S : Cursor → Cursor → Prop} (h : S c d) : ∀ x y, x = c ∧ y = d → S x y := by
    rintro _ _ ⟨rfl, rfl⟩
    exact h
  obtain ⟨he, hn⟩ | ⟨x, y, hc, hd, -⟩ := (B.head hs).kind?_cases
  case inr =>
    rw [hc, hd]
    exact .before (.pure rfl) <| here hs
  have second {k : Kind} (hc : c.kind? = some k) (hk : k.isPlain) {l : Kind} (hl : l.isName = false) :
      c.secondKind? = some l ↔ d.secondKind? = some l := by
    obtain ⟨t, ts, u, us, hr, hr', ht, -⟩ := (B.head hs).taken hc
    exact B.secondKind?_eq_some_iff hs hr hr' (.turn <| .plain <| ht ▸ hk) hl
  rw [← he]
  split
  case h_8 hc =>
    refine .iteProp (second hc rfl rfl) (fun h => ?_) (.before (.pure rfl) <| here hs)
    exact .before (.bind (.nextThen <| .plain rfl) fun _ _ _ => takes rfl) <| here ⟨hs, hc, h⟩
  case h_9 hc =>
    refine .iteProp (second hc rfl rfl) (fun h => ?_) (.before (takes rfl) <| here ⟨hs, hc⟩)
    exact .before (.bind (.nextThen <| .plain rfl) fun _ _ _ => takes rfl) <| here ⟨hs, hc, h⟩
  case h_10 => exact .before (.pure rfl) <| here hs
  all_goals exact .before (takes rfl) <| here ⟨hs, ‹_›⟩

theorem comparison (h : b.Tracks B b') : Operand B (Parser.comparison b) (Parser.comparison b') := by
  intro m a
  refine .bind (bitOr h m a) fun e e' he => .bind (.many_items <| .bind compareOp fun o o' ho => ?_) fun ls ls' hls => .ite ?_ (.pure he) ?_
  case refine_1 =>
    obtain rfl := ho
    cases o
    case none => exact .pure rfl
    case some op =>
      refine .bind (bitOr h m true) fun x x' hx => .pure ?_
      simp_all
  case refine_2 => simpa using congrArg List.isEmpty hls
  case refine_3 =>
    refine .previous fun w w' hw => .pure ?_
    have hz := he.span
    simp_all

theorem notTest (h : b.Tracks B b') : Operand B (Parser.notTest b) (Parser.notTest b') := by
  intro m a
  refine .ifAt rfl (.bind (.nextAt <| .plain rfl) fun t u ht => .bind (h.notTest m true) fun e e' he => .pure ?_) (comparison h m a)
  have hz := he.span
  simp_all [ht.left.span]

theorem boolLevel {word : Keyword} (hw : (word : Kind).isPlain) {op : BoolOp} {p p' : Parser Expr} (h : Operand B p p') :
    Operand B (Parser.boolLevel word op p) (Parser.boolLevel word op p') := by
  intro m a
  refine .bind (h m a) fun e e' he => .bind (.many_items <| .after (.plain hw) <| h m true) fun es es' hes => ?_
  have hl : Same f g es.getLast? es'.getLast? := by
    simpa using congrArg List.getLast? hes
  cases ho : es.getLast? <;> cases ho' : es'.getLast? <;> rw [ho, ho'] at hl
  case none.none => exact .pure he
  case some.some x x' =>
    refine .pure ?_
    have hz := he.span
    have hx : Same f g x x' := Option.some.inj hl
    have hw := hx.span
    simp_all
  all_goals cases hl

theorem orTest (h : b.Tracks B b') : Operand B (Parser.orTest b) (Parser.orTest b') :=
  boolLevel rfl <| boolLevel rfl <| notTest h

theorem lambda (h : b.Tracks B b') : Operand B (Parser.lambda b) (Parser.lambda b') := by
  intro m a
  refine .bind (.expect <| .plain rfl) fun t u ht => .bind (params h rfl) fun ps ps' hps => .bind (.expect .colon) fun _ _ _ => ?_
  refine .bind (h.test m false) fun e e' he => .pure ?_
  have hz := he.span
  simp_all [ht.span]

theorem test (h : b.Tracks B b') : Operand B (Parser.test b) (Parser.test b') := by
  intro m a
  refine .ifAt rfl (.seen <| lambda h m a) <| .bind (orTest h m a) fun e e' he => .ifAccept (.plain rfl) ?_ (.pure he)
  refine .bind (orTest h m true) fun c c' hc => .bind (.expect <| .clause rfl) fun _ _ _ => .bind (h.test m true) fun o o' ho => .pure ?_
  have hz := he.span
  have hw := ho.span
  simp_all

end Tracks
end Parser

-- The nesting is bounded by a number on either side; on the second it is no less.
theorem Below.tracks_ofDepth {B : Bridge f g} {i j : Nat} (h : i ≤ j) : (ofDepth i).Tracks B (ofDepth j) := by
  induction i generalizing j
  case zero => constructor <;> exact fun m a => .fail
  case succ i hi =>
    obtain ⟨j, rfl⟩ := Nat.exists_eq_add_of_le' (Nat.lt_of_lt_of_le i.succ_pos h)
    have hb := hi (Nat.le_of_succ_le_succ h)
    exact ⟨.test hb, .orTest hb, .notTest hb, .bitOr hb, .factor hb⟩

end PyVerify
