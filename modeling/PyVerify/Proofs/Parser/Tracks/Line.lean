import PyVerify.Parser.Statement
import PyVerify.Proofs.Parser.RoundTrip
import PyVerify.Proofs.Parser.Tracks.Expression

namespace PyVerify

open Token (Kind Keyword Mark)

variable {f g : Recasting}

namespace Parser

-- Statements that become the same where they get places that become the same.
def SameForm (f g : Recasting) (F G : Span → Stmt) : Prop :=
  ∀ s z, f.place s = g.place z → Same f g (F s) (G z)

namespace Tracks

variable {B : Bridge f g} {b b' : Below} {m : Nat} {a : Bool}

-- Names and imports.

theorem recast_foldl_dotted (parts : List Ident) (i : Ident) :
    (parts.foldl (fun name part => ⟨name.text ++ "." ++ part.text, name.span.join part.span⟩) i).recast f =
      (parts.map (Ident.recast f)).foldl (fun name part => ⟨name.text ++ "." ++ part.text, name.span.join part.span⟩) (i.recast f) := by
  induction parts generalizing i <;> simp_all

theorem dottedName : Operand B Parser.dottedName Parser.dottedName := by
  intro m a
  refine .bind .ident fun i i' hi => .bind (.many_items <| .after (.plain rfl) .ident) fun is is' his => .pure ?_
  simp only [Same, recast_ident, recast_foldl_dotted]
  simp_all

theorem aliasOf {p p' : Parser Ident} (h : Operand B p p') : Operand B (Parser.aliasOf p) (Parser.aliasOf p') := by
  intro m a
  refine .bind (h m a) fun i i' hi => .bind (.after (.plain rfl) .ident) fun o o' ho => .previous fun w w' hw => .pure ?_
  simp_all

theorem ident_operand : Operand B Parser.ident Parser.ident :=
  fun _ _ => ident

theorem never : Tracks (B.rel m a) Eq (B.rel m a) (return false) (return false) :=
  .pure rfl

theorem importedNames : Operand B Parser.importedNames Parser.importedNames := by
  intro m a
  refine .ifAt rfl (.bind (.nextAt <| .plain rfl) fun t u ht => .pure ?star) <| .ifAccept (.opens rfl) ?parens ?bare
  case star => simp_all [ht.left.span]
  case parens =>
    refine .bind (.foldItems rfl (fun s s' hs => .bind (aliasOf ident_operand _ _) fun i i' hi => .pure ?_) rfl) fun s s' hs => ?_
    case refine_1 => simp_all
    case refine_2 => exact .bind (.expect <| .closes rfl) fun _ _ _ => .pure hs
  case bare =>
    refine .bind (aliasOf ident_operand m a) fun i i' hi => .bind (.commaTail never <| aliasOf ident_operand m true) fun is is' his => .pure ?_
    simp_all

theorem signs_dotsOf? : Kind.Signs dotsOf? := by
  refine ⟨fun _ => rfl, fun k n h => ?_⟩
  unfold dotsOf? at h
  split at h <;> first | rfl | cases h

-- What stands behind the dots and the name of a module.
theorem importTail {n : Nat} {module module' : Option String} (h : module.map f.name = module'.map g.name) :
    Tracks (B.rel m true) (SameForm f g) (B.rel m true)
      (if n = 0 && module.isNone then Parser.fail .expectedModuleName
      else do
        let _ ← Parser.expect Keyword.kwImport
        let names ← Parser.importedNames
        return fun span => .importFrom span module names n)
      (if n = 0 && module'.isNone then Parser.fail .expectedModuleName
      else do
        let _ ← Parser.expect Keyword.kwImport
        let names ← Parser.importedNames
        return fun span => .importFrom span module' names n) := by
  refine .ite ?_ .fail <| .bind (.expect <| .plain rfl) fun _ _ _ => .bind (importedNames m true) fun is is' his => .pure ?_
  case refine_1 => cases module <;> cases module' <;> simp_all
  case refine_2 =>
    intro s z hz
    simp_all

theorem importFrom : Tracks (B.rel m a) (SameForm f g) (B.rel m true) Parser.importFrom Parser.importFrom := by
  refine .bind (.expect <| .plain rfl) fun _ _ _ =>
    .bind (.many_items <| .peekSign signs_dotsOf? (fun k n hk => ?_) fun o o' ho ho' => ?_) fun ns ns' hns => ?_
  case refine_1 =>
    rw [Option.bind_some, hk]
    exact .bind (.nextAt <| .plain <| signs_dotsOf?.plain k n hk) fun _ _ _ => .pure rfl
  case refine_2 =>
    rw [ho, ho']
    exact .pure rfl
  obtain rfl : ns = ns' := by simpa using hns
  refine .peek (fun o ho => ?_) fun x y _ => ?_
  case refine_1 =>
    split
    case h_1 => exact (ho _ rfl).elim
    case h_2 => exact .seen <| importTail rfl
  case refine_2 => exact .seen <| .bind (dottedName m true) fun i i' hi => importTail (by simp_all)

theorem nameList : Operand B Parser.nameList Parser.nameList := by
  intro m a
  refine .bind .ident fun i i' hi => .bind (.commaTail never .ident) fun is is' his => .pure ?_
  simp_all

theorem exprListOrYield (h : b.Tracks B b') : Operand B (Parser.exprListOrYield b) (Parser.exprListOrYield b') :=
  fun m a => .ifAt rfl (.seen <| yieldExpr h m a) (exprList h m a)

-- The bound of a type parameter and its default are read and dropped.
theorem typeParam (h : b.Tracks B b') :
    Tracks (B.rel m true) (Same f g) (B.rel m true) (Parser.typeParam b) (Parser.typeParam b') := by
  have named : Tracks (B.rel m true) (Same f g) (B.rel m true)
      (do
        let name ← Parser.ident
        let _ ← Parser.after Mark.colon b.test
        let _ ← Parser.after Mark.assign b.test
        return name)
      (do
        let name ← Parser.ident
        let _ ← Parser.after Mark.colon b'.test
        let _ ← Parser.after Mark.assign b'.test
        return name) :=
    .bind .ident fun i i' hi => .bind (.after .colon <| h.test m false) fun _ _ _ =>
      .bind (.after (.plain rfl) <| h.test m true) fun _ _ _ => .pure hi
  refine .bind (.accepts rfl) fun x y hx => .ite (by rw [hx]) (.bind (.accepts rfl) fun _ _ _ => named) named

theorem typeParams (h : b.Tracks B b') :
    Tracks (B.rel m true) (Same f g) (B.rel m true) (Parser.typeParams b) (Parser.typeParams b') := by
  refine .ifAccept (.opens rfl)
    (.bind (.foldItems rfl (fun s s' hs => .bind (typeParam h) fun i i' hi => .pure ?_) rfl) fun s s' hs => ?_) (.pure rfl)
  case refine_1 => simp_all
  case refine_2 => exact .bind (.expect <| .closes rfl) fun _ _ _ => .pure hs

theorem typeAlias (h : b.Tracks B b') {x : String} :
    Tracks (Ahead (some <| .name x) (B.rel m a)) (SameForm f g) (B.rel m true) (Parser.typeAlias b) (Parser.typeAlias b') := by
  refine .bind (.nextGoes .name) fun _ _ _ => .bind .ident fun i i' hi => .bind (typeParams h) fun is is' his => ?_
  refine .bind (.expect <| .plain rfl) fun _ _ _ => .bind (h.test m true) fun v v' hv => .pure fun s z hz => ?_
  simp_all

-- Assignments.

theorem signs_augmentedOp? : Kind.Signs augmentedOp? := by
  refine ⟨fun _ => rfl, fun k op h => ?_⟩
  cases k <;> first | rfl | cases h

theorem checkTargets {S : Cursor → Cursor → Prop} {es es' : List Expr} (h : Same f g es es') :
    Tracks S (fun _ _ => True) S (es.forM Parser.checkTarget) (es'.forM Parser.checkTarget) := by
  induction es generalizing es' <;> cases es'
  case nil.nil => exact .pure trivial
  case cons.cons e es hi e' es' =>
    obtain ⟨he, hes⟩ := List.cons.inj h
    exact .bind (checkTarget he) fun _ _ _ => hi hes
  all_goals cases h

theorem recast_splitLast (e : Expr) (es : List Expr) :
    splitLast (e.recast f) (es.map (Expr.recast f)) = ((splitLast e es).1.map (Expr.recast f), (splitLast e es).2.recast f) := by
  induction es generalizing e <;> simp_all [splitLast]

theorem splitLast_same {e e' : Expr} {es es' : List Expr} (he : Same f g e e') (hes : Same f g es es') :
    Same f g (splitLast e es) (splitLast e' es') := by
  have hf := recast_splitLast (f := f) e es
  have hg := recast_splitLast (f := g) e' es'
  simp_all [Prod.map]

theorem exprStmt (h : b.Tracks B b') : Tracks (B.rel m a) (SameForm f g) (B.rel m true) (Parser.exprStmt b) (Parser.exprStmt b') := by
  refine .bind (exprListOrYield h m a) fun e e' he => .peekSign signs_augmentedOp? (fun k op hk => ?augmented) fun o o' ho ho' => ?plain
  case augmented =>
    rw [Option.bind_some, hk]
    refine .bind (.nextAt <| .plain <| signs_augmentedOp?.plain k op hk) fun _ _ _ => .ite he.isPlace ?_ .failAt
    refine .bind (exprListOrYield h m true) fun v v' hv => .pure fun s z hz => ?_
    simp_all
  case plain =>
    rw [ho, ho']
    refine .ifAccept .colon (.bind (checkTarget he) fun _ _ _ => .bind (h.test m false) fun t t' ht => ?annotated) ?_
    case annotated =>
      refine .bind (.after (.plain rfl) <| exprListOrYield h m true) fun v v' hv => .pure fun s z hz => ?_
      simp_all
    refine .bind (.many_items <| .after (.plain rfl) <| exprListOrYield h m true) fun es es' hes => .ite ?_ (.pure fun s z hz => ?_) ?_
    case refine_1 => simpa using congrArg List.isEmpty hes
    case refine_2 => simp_all
    case refine_3 =>
      obtain ⟨ht, hv⟩ := Prod.mk.inj (splitLast_same he hes)
      refine .bind (checkTargets ht) fun _ _ _ => .pure fun s z hz => ?_
      simp_all

theorem deleteTargets_same {e e' : Expr} (h : Same f g e e') : Same f g (deleteTargets e) (deleteTargets e') := by
  cases e <;> cases e' <;> simp_all [deleteTargets]

end Tracks

-- A type alias begins with the word `type`, which may be another name on the other side. Read as an expression there, the
-- line stops before the name of the alias.

theorem startsTypeAlias_eq (c : Cursor) : ∃ x, Parser.startsTypeAlias c = .ok (x, c) ∧
    (x = true ↔ c.kind? = some (.name "type") ∧ (∃ text, c.secondKind? = some (.name text)) ∧
      (c.thirdKind? = some (.mark .assign) ∨ c.thirdKind? = some (.mark .openBracket))) := by
  obtain ⟨x, _, h, rfl, hx⟩ : Runs c (fun x d => d = c ∧ (x = true ↔ c.kind? = some (.name "type") ∧
      (∃ text, c.secondKind? = some (.name text)) ∧
      (c.thirdKind? = some (.mark .assign) ∨ c.thirdKind? = some (.mark .openBracket)))) Parser.startsTypeAlias := by
    refine .get ?_
    split
    case h_1 hk hs ht | h_2 hk hs ht => exact .pure ⟨rfl, by simp [hk, hs, ht]⟩
    case h_3 hn hn' =>
      refine .pure ⟨rfl, iff_of_false Bool.false_ne_true ?_⟩
      rintro ⟨hk, ⟨text, hs⟩, ht | ht⟩
      · exact hn text hk hs ht
      · exact hn' text hk hs ht
  exact ⟨x, h, hx⟩

-- No name is next.
def NoName (c : Cursor) : Prop :=
  ∀ x, c.kind? ≠ some (.name x)

theorem exprStmt_stops {c : Cursor} {x y : String} {ks : List Kind} {i : Nat} (hi : 1 < i) (hc : c.Ahead (.name x :: .name y :: ks)) :
    Runs c (fun _ d => d.Ahead (.name y :: ks)) (Parser.exprStmt (Below.ofDepth i)) := by
  have he : Recovers 0 (.name .nowhere x) [.name x] := (Returns.of_isFormula .name).recovers.mono (Nat.zero_le _) le_rfl
  have hl : Runs c (fun _ d => d.Ahead (.name y :: ks)) (Parser.exprList (Below.ofDepth i)) := by
    refine .bind (he.starOrNamed hi hc nofun nofun) fun e d hd => .unlessAt (hd.ahead.kind?_ne nofun) <| .pure hd.ahead
  refine .bind (.unlessAt (hc.kind?_ne nofun) hl) fun e d hd => .peek ?_
  rw [hd.kind?]
  refine .unlessAccept (hd.kind?_ne nofun) <| .bind (Q := fun es d => es = [] ∧ d.Ahead (.name y :: ks)) (.many hd.bounded .nil ?_) ?_
  case refine_1 => exact .unlessAccept (hd.kind?_ne nofun) <| .pure ⟨rfl, rfl, hd⟩
  case refine_2 =>
    rintro _ d ⟨rfl, hd⟩
    exact .pure hd

theorem ahead_of_twoNames {c : Cursor} {x y : String} (hb : c.rest.length ≤ c.size) (hx : c.kind? = some (.name x))
    (hy : c.secondKind? = some (.name y)) : ∃ ks, c.Ahead (.name x :: .name y :: ks) := by
  obtain ⟨previous, _ | ⟨t, _ | ⟨u, rest⟩⟩, last, size⟩ := c
  case nil => cases hx
  case cons.nil => cases hy
  case cons.cons => exact ⟨rest.map Token.kind, by simp_all [Cursor.kind?, Cursor.secondKind?], hb⟩

namespace TracksTo

variable {B : Bridge f g} {m : Nat} {a : Bool} {i j : Nat}

theorem aliasOrExprStmt (hi : 1 < i) (hj : i ≤ j) :
    TracksTo NoName (B.rel m a) (SameForm f g) (B.rel m true)
      (do if ← startsTypeAlias then typeAlias (Below.ofDepth i) else exprStmt (Below.ofDepth i))
      (do if ← startsTypeAlias then typeAlias (Below.ofDepth j) else exprStmt (Below.ofDepth j)) := by
  intro c d hs
  have hb : (Below.ofDepth i).Tracks B (Below.ofDepth j) := Below.tracks_ofDepth hj
  obtain ⟨x, hx, hc⟩ := startsTypeAlias_eq c
  obtain ⟨y, hy, hd⟩ := startsTypeAlias_eq d
  rw [Tracks.bind_eq hx, Tracks.bind_eq hy]
  cases x <;> cases y
  case true.true => exact Tracks.to (.typeAlias hb) c d ⟨hs, (hc.mp rfl).left⟩
  case false.false => exact Tracks.to (.exprStmt hb) c d hs
  case true.false =>
    obtain ⟨hk, hn⟩ := hc.mp rfl
    have hk' := ((B.head hs).soft (by decide) hk).right
    exact absurd (hd.mpr ⟨hk', ((B.twoNames_iff hs rfl rfl).mp ⟨⟨_, hk⟩, hn⟩).right⟩) nofun
  case false.true =>
    obtain ⟨hk, hn⟩ := hd.mp rfl
    obtain ⟨⟨x, hx⟩, ⟨y, hy⟩, -⟩ := (B.twoNames_iff hs rfl rfl).mpr ⟨⟨_, hk⟩, hn⟩
    obtain ⟨ks, ha⟩ := ahead_of_twoNames (B.bounded hs).left hx hy
    obtain ⟨_, e, hr, he⟩ := exprStmt_stops hi ha
    intro F c' hp hn
    cases hp.symm.trans hr
    exact (hn y he.kind?).elim

theorem smallForm (hi : 1 < i) (hj : i ≤ j) :
    TracksTo NoName (B.rel m a) (SameForm f g) (B.rel m true) (Parser.smallForm (Below.ofDepth i)) (Parser.smallForm (Below.ofDepth j)) := by
  have h : (Below.ofDepth i).Tracks B (Below.ofDepth j) := Below.tracks_ofDepth hj
  have word {k : Kind} (hk : k.isPlain) {p q : Parser (Span → Stmt)} (hp : Tracks (B.rel m true) (SameForm f g) (B.rel m true) p q) :
      TracksTo NoName (Ahead (some k) (B.rel m a)) (SameForm f g) (B.rel m true) (Parser.next >>= fun _ => p) (Parser.next >>= fun _ => q) :=
    Tracks.to <| .bind (.nextAt <| .plain hk) fun _ _ _ => hp
  refine .peek (fun o ho => ?_) fun x y _ => (aliasOrExprStmt hi hj).before fun _ _ => And.left
  split
  case h_1 | h_2 | h_3 =>
    refine word rfl <| .pure fun s z hz => ?_
    simp [hz]
  case h_4 =>
    refine word rfl <| .bind .startsExpr fun x y hx => .ite hx (.bind (.exprList h m true) fun e e' he => .pure ?_) (.pure ?_)
    all_goals
      intro s z hz
      simp_all
  case h_5 =>
    refine word rfl <| .bind (.targetList h m true) fun e e' he => ?_
    have ht := Tracks.deleteTargets_same he
    refine .bind (.checkTargets ht) fun _ _ _ => .pure fun s z hz => ?_
    simp_all
  case h_6 =>
    refine word rfl <| .bind .startsExpr fun x y hx => .ite hx (.bind (h.test m true) fun e e' he => ?_) (.pure ?_)
    case refine_1 =>
      refine .bind (.after (.plain rfl) <| h.test m true) fun o o' ho => .pure fun s z hz => ?_
      simp_all
    case refine_2 =>
      intro s z hz
      simp_all
  case h_7 | h_8 =>
    refine word rfl <| .bind (.nameList m true) fun is is' his => .pure fun s z hz => ?_
    simp_all
  case h_9 =>
    refine word rfl <| .bind (h.test m true) fun e e' he => .bind (.after (.plain rfl) <| h.test m true) fun o o' ho => .pure fun s z hz => ?_
    simp_all
  case h_10 =>
    refine word rfl <| .bind (.aliasOf .dottedName m true) fun i i' hi => ?_
    refine .bind (.commaTail .never <| .aliasOf .dottedName m true) fun is is' his => .pure fun s z hz => ?_
    simp_all
  case h_11 => exact Tracks.to <| .seen .importFrom
  case h_12 => exact (aliasOrExprStmt hi hj).before fun _ _ => And.left

theorem smallStmt (hi : 1 < i) (hj : i ≤ j) :
    TracksTo NoName (B.rel m a) (Same f g) (B.rel m true) (Parser.smallStmt (Below.ofDepth i)) (Parser.smallStmt (Below.ofDepth j)) := by
  refine .here fun z z' hz => .bind (smallForm hi hj) (fun F G hf => Tracks.to <| .previous fun w w' hw => .pure ?_) ?_
  case refine_1 => exact hf _ _ (by simp [hz, hw])
  case refine_2 =>
    rintro _ _ _ _ ⟨⟩
    exact id

end TracksTo

-- A further statement on a line.
def nextStmt (b : Below) : Parser (Option Stmt) := do
  if ← accept Mark.semicolon then
    if (← isAt .newline) || (← isAt .eof) then return none else return some (← smallStmt b)
  else return none

-- The statements on a line, without what ends it.
def lineStmts (b : Below) : Parser (List Stmt) := do
  return (← smallStmt b) :: (← many (nextStmt b))

theorem simpleStmts_eq (b : Below) : simpleStmts b = lineStmts b >>= fun ss => endOfLine >>= fun _ => return ss := by
  simp [simpleStmts, lineStmts, nextStmt]

theorem nextStmt_of_name {b : Below} {c : Cursor} (h : ¬NoName c) : nextStmt b c = .ok (none, c) := by
  obtain ⟨x, hx⟩ := not_forall_not.mp h
  exact Tracks.bind_eq <| Tracks.accept_eq_false <| by simp [hx]

namespace TracksTo

variable {B : Bridge f g} {m : Nat} {a : Bool} {i j : Nat}

theorem nextStmt (hi : 1 < i) (hj : i ≤ j) :
    TracksTo NoName (B.rel m true) (Same f g) (B.rel m true) (Parser.nextStmt (Below.ofDepth i)) (Parser.nextStmt (Below.ofDepth j)) := by
  refine .bindTo (.accepts rfl) fun x y hx => .ite hx ?_ (Tracks.to <| .pure rfl)
  refine .bindTo (.isAt rfl) fun x y hx => .bindTo (.isAt rfl) fun x' y' hx' => .ite (by rw [hx, hx']) (Tracks.to <| .pure rfl) ?_
  refine .bind (smallStmt hi hj) (fun s s' hs => Tracks.to <| .pure <| by simp_all) ?_
  rintro _ _ _ _ ⟨⟩
  exact id

theorem lineStmts (hi : 1 < i) (hj : i ≤ j) :
    TracksTo NoName (B.rel m a) (Same f g) (B.rel m true) (Parser.lineStmts (Below.ofDepth i)) (Parser.lineStmts (Below.ofDepth j)) := by
  refine .bind (smallStmt hi hj) (fun s s' hs =>
    .bind (.many (nextStmt hi hj) (fun _ => nextStmt_of_name) fun _ _ => B.size) (fun ss ss' hss => ?_) ?_) ?_
  case refine_1 => exact Tracks.to <| .pure <| by simp_all
  case refine_2 =>
    rintro _ _ _ _ ⟨⟩
    exact id
  case refine_3 =>
    intro s c r e h he
    obtain ⟨_, _, hm, h⟩ := ok_of_bind h
    cases h
    by_contra hc
    exact hc <| repeatUpTo_end (nextStmt_of_name hc) hm ▸ he

end TracksTo
end Parser
end PyVerify
