import PyVerify.Parser.Statement
import PyVerify.Proofs.Parser.Reads.Statement
import PyVerify.Proofs.Parser.Settles.Pattern

namespace PyVerify

open Token (Kind Keyword Mark)

variable {g : Ground} {depth i j m n : Nat} {b b' : Below}

theorem Below.Settles.mono (h : b.Settles g depth b') (hm : m ≤ depth) : b.Settles g m b' where
  test    := fun n hn => h.test n (hn.trans hm)
  orTest  := fun n hn => h.orTest n (hn.trans hm)
  notTest := fun n hn => h.notTest n (hn.trans hm)
  bitOr   := fun n hn => h.bitOr n (hn.trans hm)
  factor  := fun n hn => h.factor n (hn.trans hm)

namespace Parser.Settles

variable {α : Type} {V : α → Prop} {l : α → Nat} {start : Span} {e : Expr} {es : List Expr}

-- Imports.

theorem dottedName : SettlesStep g n Parser.dottedName Parser.dottedName :=
  .bind .ident fun _ _ => .bind (.many fun _ _ => .afterStep .ident (Nat.sub_le ..)) fun _ _ => .pure trivial le_rfl

theorem aliasOf {name : Parser Ident} (h : SettlesStep g n name name) : SettlesStep g n (Parser.aliasOf name) (Parser.aliasOf name) :=
  .bind h fun _ _ => .bind (.after .ident (Nat.sub_le ..)) fun _ _ => .previous fun _ _ => .pure trivial le_rfl

theorem importedNames : SettlesStep g n Parser.importedNames Parser.importedNames := by
  refine .ifAt ?all <| .ifAccept ?bracketed ?listed
  case all  => exact .bind .next fun _ _ => .pure trivial le_rfl
  case listed =>
    refine .bind (.aliasOf ident.any) fun _ _ => .bind (.commaTail (fun _ => .pure trivial le_rfl) fun _ _ => .aliasOf ident.any) ?_
    exact fun _ _ => .pure trivial le_rfl
  case bracketed =>
    have item {k} (names : List Alias) : SettlesStep g k (do return names ++ [← Parser.aliasOf Parser.ident])
        (do return names ++ [← Parser.aliasOf Parser.ident]) := .bind (.aliasOf ident.any) fun _ _ => .pure trivial le_rfl
    exact .bind (.foldItems (fun _ _ names _ => item names) trivial) fun _ _ => .bind .expect fun _ _ => .pure trivial (Nat.sub_le ..)

theorem importFrom : SettlesStep g n Parser.importFrom Parser.importFrom := by
  refine .bind .expect fun _ _ => .bind (.many (V := fun _ => True) fun k _ => .peek fun o => ?dots) fun _ _ => .peek fun o => ?_
  case dots =>
    split
    case h_1 => exact .bind .next fun _ _ => .pure (fun _ _ => trivial) le_rfl
    case h_2 => exact .pure nofun le_rfl
  have names {m} : Settles g m (fun _ => True) (fun _ => m) Parser.importedNames Parser.importedNames :=
    importedNames.within fun _ => Nat.sub_le m 1
  split
  case h_1 =>
    refine .bind .dottedName fun _ _ => .ite (.fail nofun) <| .bind .expect fun _ _ => .bind names fun _ _ => ?_
    exact .pure trivial (by omega)
  case h_2 => exact .ite (.fail nofun) <| .bind .expect fun _ _ => .bind names fun _ _ => .pure trivial (Nat.sub_le ..)

theorem nameList : SettlesStep g n Parser.nameList Parser.nameList :=
  .bind .ident fun _ _ => .bind (.commaTail (fun _ => .pure trivial le_rfl) fun _ _ => .ident) fun _ _ => .pure trivial le_rfl

-- Simple statements.

theorem checkTargets (h : ∀ p, Expr.firstUnassignable? es = some p → g.Fits p.span) :
    Settles g n (fun _ => True) (fun _ => n) (es.forM Parser.checkTarget) (es.forM Parser.checkTarget) := by
  induction es
  case nil => exact .pure trivial le_rfl
  case cons e es hi =>
    rw [Expr.firstUnassignable?] at h
    refine .bind (.checkTarget (e := e) fun p hp => h p ?_) fun _ he => hi fun p hp => h p ?_
    case refine_1 => rw [hp]
    case refine_2 => rw [he, hp]

theorem exprListOrYield (h : b.Settles g depth b') (hn : n ≤ depth) :
    SettlesExpr g n (Parser.exprListOrYield b) (Parser.exprListOrYield b') :=
  .ifAt (.yieldExpr h (by omega)) (.exprList h hn)

theorem typeParam (h : b.Settles g depth b') (hn : n ≤ depth) : SettlesStep g n (Parser.typeParam b) (Parser.typeParam b') := by
  -- Two stars are looked for where there is not one.
  refine .accepted fun k hk _ => .ite (.accepted fun m hm _ => ?_) ?_
  all_goals
    refine .bind .ident fun _ _ => .bind (.after (h.test _ (by omega)) (Nat.sub_le ..)) fun _ _ => ?_
    exact .bind (.after (h.test _ (by omega)) (Nat.sub_le ..)) fun _ _ => .pure trivial (by omega)

theorem typeParams (h : b.Settles g depth b') (hn : n ≤ depth) :
    Settles g n (fun _ => True) (fun _ => n) (Parser.typeParams b) (Parser.typeParams b') := by
  refine .ifAccept (.bind (.foldItems (S := fun _ => True) (fun _ _ _ _ => ?_) trivial) fun _ _ => ?_) (.pure trivial le_rfl)
  case refine_1 => exact .bind (.typeParam h (by omega)) fun _ _ => .pure trivial le_rfl
  case refine_2 => exact .bind .expect fun _ _ => .pure trivial (by omega)

theorem typeAlias (h : b.Settles g depth b') (hn : n ≤ depth) : SettlesStep g n (Parser.typeAlias b) (Parser.typeAlias b') := by
  refine .bind .next fun _ _ => .bind .ident fun _ _ => .bind (.typeParams h (by omega)) fun _ _ => .bind .expect fun _ _ => ?_
  exact .bind (h.test _ (by omega)) fun _ _ => .pure trivial (by omega)

theorem startsTypeAlias {x y : Bool → Parser α} (h : ∀ b, Settles g n V l (x b) (y b)) :
    Settles g n V l (Parser.startsTypeAlias >>= x) (Parser.startsTypeAlias >>= y) := by
  refine .look (.view (fun _ _ => rfl) fun c => ?_) h
  split <;> exact .pure trivial le_rfl

theorem exprStmt (h : b.Settles g depth b') (hn : n ≤ depth) : SettlesStep g n (Parser.exprStmt b) (Parser.exprStmt b') := by
  refine .bind (.exprListOrYield h hn) fun first hf => .peek fun o => ?_
  split
  case h_1 =>
    refine .bind .next fun _ _ => .ite ?_ (.failAt nofun hf.span)
    exact .bind (.exprListOrYield h (by omega)) fun _ _ => .pure trivial (by omega)
  case h_2 =>
    refine .ifAccept (.bind (.checkTarget hf.part) fun _ _ => .bind (h.test _ (by omega)) fun _ _ => ?_) ?_
    case refine_1 => exact .bind (.after (.exprListOrYield h (by omega)) (Nat.sub_le ..)) fun _ _ => .pure trivial (by omega)
    case refine_2 =>
      refine .bind (.many fun k _ => .afterStep (.exprListOrYield h (by omega)) (Nat.sub_le ..)) fun more hm => ?_
      refine .ite (.pure trivial le_rfl) <| .bind (.checkTargets <| Ground.Places.first fun e he => ?_) fun _ _ => .pure trivial le_rfl
      have hs : e ∈ first :: more := splitLast_append ▸ List.mem_append_left _ he
      exact List.forall_mem_cons.mpr ⟨hf, hm⟩ e hs

theorem places_deleteTargets (h : g.Places e) : ∀ p, Expr.firstUnassignable? (deleteTargets e) = some p → g.Fits p.span := by
  unfold deleteTargets
  split
  case h_1 => exact h.part
  case h_2 => exact Ground.Places.first <| List.forall_mem_singleton.mpr h

theorem smallForm (h : b.Settles g depth b') (hn : n ≤ depth) : SettlesStep g n (Parser.smallForm b) (Parser.smallForm b') := by
  have hd : n - 1 ≤ depth := by omega
  refine .peek fun o => ?_
  split
  case h_1 | h_2 | h_3 => exact .bind .next fun _ _ => .pure trivial le_rfl
  case h_4 =>
    refine .bind .next fun _ _ => .startsExpr fun _ => .ite ?_ (.pure trivial le_rfl)
    exact .bind (.exprList h hd) fun _ _ => .pure trivial (Nat.sub_le ..)
  case h_5 =>
    refine .bind .next fun _ _ => .bind (.targetList h hd) fun _ ht => ?_
    exact .bind (.checkTargets <| places_deleteTargets ht) fun _ _ => .pure trivial (Nat.sub_le ..)
  case h_6 =>
    refine .bind .next fun _ _ => .startsExpr fun _ => .ite ?_ (.pure trivial le_rfl)
    exact .bind (h.test _ hd) fun _ _ => .bind (.after (h.test _ (by omega)) (Nat.sub_le ..)) fun _ _ => .pure trivial (Nat.sub_le ..)
  case h_7 | h_8 => exact .bind .next fun _ _ => .bind .nameList fun _ _ => .pure trivial (Nat.sub_le ..)
  case h_9 =>
    refine .bind .next fun _ _ => .bind (h.test _ hd) fun _ _ => .bind (.after (h.test _ (by omega)) (Nat.sub_le ..)) fun _ _ => ?_
    exact .pure trivial (Nat.sub_le ..)
  case h_10 =>
    refine .bind .next fun _ _ => .bind (.aliasOf .dottedName) fun _ _ => .bind (.commaTail ?_ fun _ _ => .aliasOf .dottedName) ?_
    case refine_1 => exact fun _ => .pure trivial le_rfl
    case refine_2 => exact fun _ _ => .pure trivial (Nat.sub_le ..)
  case h_11 => exact .importFrom
  case h_12 => exact .startsTypeAlias fun _ => .ite (.typeAlias h hn) (.exprStmt h hn)

theorem smallStmt (h : b.Settles g depth b') (hn : n ≤ depth) : SettlesStep g n (Parser.smallStmt b) (Parser.smallStmt b') :=
  .here fun _ _ => .bind (.smallForm h hn) fun _ _ => .previous fun _ _ => .pure trivial le_rfl

theorem endOfLine : Settles g n (fun _ => True) (fun _ => n) Parser.endOfLine Parser.endOfLine :=
  .ifAccept (.pure trivial (Nat.sub_le ..)) <| .isAt fun _ => .isAt fun _ => .ite (.pure trivial le_rfl) (.fail nofun)

theorem simpleStmts (h : b.Settles g depth b') (hn : n ≤ depth) : SettlesStep g n (Parser.simpleStmts b) (Parser.simpleStmts b') := by
  refine .bind (.smallStmt h hn) fun _ _ => .bind (.many (V := fun _ => True) fun k hk => .ifAccept ?_ (.pure nofun le_rfl)) ?_
  case refine_1 =>
    refine .isAt fun _ => .isAt fun _ => .ite (.pure nofun (Nat.sub_le ..)) ?_
    exact .bind (.smallStmt h (by omega)) fun _ _ => .pure (fun _ _ => trivial) (Nat.sub_le ..)
  case refine_2 => exact fun _ _ => .bind .endOfLine fun _ _ => .pure trivial le_rfl

-- Compound statements.

section

variable {stmt stmt' : Parser (List Stmt)}

theorem blockItems {p q : Parser α} (h : ∀ k ≤ n, SettlesStep g k p q) :
    Settles g n (fun _ => True) (fun _ => n) (Parser.blockItems p) (Parser.blockItems q) := by
  refine .any <| .many (V := fun _ => True) fun k hk => .bind .skipNewlines fun _ _ => ?_
  refine .ifAccept (.pure nofun (Nat.sub_le ..)) <| .ifAt (.pure nofun le_rfl) <| .bind (h k hk) fun _ _ => ?_
  exact .pure (fun _ _ => trivial) le_rfl

theorem suite (h : b.Settles g depth b') (hs : ∀ k ≤ depth - 1, SettlesStep g k stmt stmt') (hn : n ≤ depth) :
    SettlesStep g n (Parser.suite b stmt) (Parser.suite b' stmt') := by
  refine .ifAccept (.bind .skipNewlines fun _ _ => .ifAccept ?_ (.fail nofun)) (.simpleStmts h hn)
  exact .bind (.blockItems fun k hk => hs k (by omega)) fun _ _ => .pure trivial (Nat.sub_le ..)

theorem body (h : b.Settles g depth b') (hs : ∀ k ≤ depth - 1, SettlesStep g k stmt stmt') (hn : n ≤ depth) :
    SettlesStep g n (Parser.body b stmt) (Parser.body b' stmt') :=
  .bind .expect fun _ _ => (suite h hs (by omega)).within fun _ => Nat.sub_le ..

theorem optionalBody {word : Keyword} (h : b.Settles g depth b') (hs : ∀ k ≤ depth - 1, SettlesStep g k stmt stmt') (hn : n ≤ depth) :
    Settles g n (fun _ => True) (fun _ => n) (Parser.optionalBody b stmt word) (Parser.optionalBody b' stmt' word) :=
  .bind (.after (.body h hs (by omega)) (Nat.sub_le ..)) fun _ _ => .pure trivial le_rfl

theorem functionDef {ds : List Expr} {a : Bool} (h : b.Settles g depth b') (hs : ∀ k ≤ depth - 1, SettlesStep g k stmt stmt')
    (hn : n ≤ depth) : SettlesStep g n (Parser.functionDef b stmt start ds a) (Parser.functionDef b' stmt' start ds a) := by
  refine .bind .expect fun _ _ => .bind .ident fun _ _ => .bind .expect fun _ _ => .bind (.params h (by omega)) fun _ _ => ?_
  refine .bind .expect fun _ _ => .bind (.after (h.test _ (by omega)) (Nat.sub_le ..)) fun _ _ => .bind (.body h hs (by omega)) ?_
  exact fun _ _ => .previous fun _ _ => .pure trivial (by omega)

theorem classDef {ds : List Expr} (h : b.Settles g depth b') (hs : ∀ k ≤ depth - 1, SettlesStep g k stmt stmt')
    (hn : n ≤ depth) : SettlesStep g n (Parser.classDef b stmt start ds) (Parser.classDef b' stmt' start ds) := by
  refine .bind .expect fun _ _ => .bind .ident fun _ _ =>
    .bind (.after (V := fun _ => True) (m := n - 1 - 1 - 1 - 1) ?arguments (by omega)) fun _ _ => ?_
  case arguments => exact .bind (.arguments h (by omega)) fun _ _ => .bind .expect fun _ _ => .pure trivial le_rfl
  exact .bind (.body h hs (by omega)) fun _ _ => .previous fun _ _ => .pure trivial (by omega)

theorem decorator (h : b.Settles g depth b') (hn : n ≤ depth) : SettlesStep g n (Parser.decorator b) (Parser.decorator b') :=
  .bind (.namedTest h hn) fun _ _ => .bind .expect fun _ _ => .bind .skipNewlines fun _ _ => .pure trivial (by omega)

theorem decorated (h : b.Settles g depth b') (hs : ∀ k ≤ depth - 1, SettlesStep g k stmt stmt') (hn : n ≤ depth) :
    SettlesStep g n (Parser.decorated b stmt start) (Parser.decorated b' stmt' start) := by
  refine .bind (.many fun _ _ => .afterStep (.decorator h (by omega)) (Nat.sub_le ..)) fun _ _ => .view (fun _ _ => rfl) fun c => ?_
  split
  case h_1 => exact .functionDef h hs hn
  case h_2 => exact .classDef h hs hn
  case h_3 => exact .ite (.bind .next fun _ _ => (functionDef h hs (by omega)).within fun _ => Nat.sub_le ..) (.fail nofun)
  case h_4 => exact .fail nofun

theorem branch (h : b.Settles g depth b') (hs : ∀ k ≤ depth - 1, SettlesStep g k stmt stmt') (hn : n ≤ depth) :
    SettlesStep g n (Parser.branch b stmt) (Parser.branch b' stmt') :=
  .bind .next fun _ _ => .bind (.namedTest h (by omega)) fun _ _ => .bind (.body h hs (by omega)) fun _ _ => .pure trivial (by omega)

theorem ifStmt (h : b.Settles g depth b') (hs : ∀ k ≤ depth - 1, SettlesStep g k stmt stmt') (hn : n ≤ depth) :
    SettlesStep g n (Parser.ifStmt b stmt start) (Parser.ifStmt b' stmt' start) := by
  refine .bind .expect fun _ _ => .bind (.namedTest h (by omega)) fun _ _ => .bind (.body h hs (by omega)) fun _ _ => ?_
  refine .bind (.many (V := fun _ => True) fun k hk => .ifAt ?_ (.pure nofun le_rfl)) fun _ _ => .bind (.optionalBody h hs (by omega)) ?_
  case refine_1 => exact .bind (.branch h hs (by omega)) fun _ _ => .pure (fun _ _ => trivial) le_rfl
  case refine_2 => exact fun _ _ => .previous fun _ _ => .pure trivial (by omega)

theorem whileStmt (h : b.Settles g depth b') (hs : ∀ k ≤ depth - 1, SettlesStep g k stmt stmt') (hn : n ≤ depth) :
    SettlesStep g n (Parser.whileStmt b stmt start) (Parser.whileStmt b' stmt' start) := by
  refine .bind .expect fun _ _ => .bind (.namedTest h (by omega)) fun _ _ => .bind (.body h hs (by omega)) fun _ _ => ?_
  exact .bind (.optionalBody h hs (by omega)) fun _ _ => .previous fun _ _ => .pure trivial (by omega)

theorem forStmt {a : Bool} (h : b.Settles g depth b') (hs : ∀ k ≤ depth - 1, SettlesStep g k stmt stmt') (hn : n ≤ depth) :
    SettlesStep g n (Parser.forStmt b stmt start a) (Parser.forStmt b' stmt' start a) := by
  refine .bind .expect fun _ _ => .bind (.targetList h (by omega)) fun _ ht => .bind (.checkTarget ht.part) fun _ _ => .bind .expect fun _ _ => ?_
  refine .bind (.exprList h (by omega)) fun _ _ => .bind (.body h hs (by omega)) fun _ _ => .bind (.optionalBody h hs (by omega)) ?_
  exact fun _ _ => .previous fun _ _ => .pure trivial (by omega)

theorem handler {wanted : Option Bool} (h : b.Settles g depth b') (hs : ∀ k ≤ depth - 1, SettlesStep g k stmt stmt') (hn : n ≤ depth) :
    SettlesStep g n (Parser.handler b stmt wanted) (Parser.handler b' stmt' wanted) := by
  refine .bind .next fun word hw => .accepted fun k hk star => .ite (.failAt nofun hw) <| .isAt fun _ => ?_
  -- A bare clause has neither a type nor a name.
  have none {γ : Type} : Settles g k (fun _ => True) (fun _ => k) (Pure.pure (none : Option γ)) (Pure.pure none) := .pure trivial le_rfl
  have type : Settles g k (fun _ => True) (fun _ => k) (some <$> b.test) (some <$> b'.test) :=
    .map (h.test k (by omega)) (fun _ _ => trivial) fun _ => Nat.sub_le k 1
  refine .ite (.bind none fun _ _ => ?_) (.bind type fun _ _ => ?_)
  all_goals
    refine .ite (.bind none fun _ _ => ?_) (.bind (after ident (Nat.sub_le (k - 1) 1)).any fun _ _ => ?_)
    all_goals exact .bind (.body h hs (by omega)) fun _ _ => .previous fun _ _ => .pure trivial (by omega)

theorem handlers (h : b.Settles g depth b') (hs : ∀ k ≤ depth - 1, SettlesStep g k stmt stmt') (hn : n ≤ depth) :
    Settles g n (fun _ => True) (fun _ => n) (Parser.handlers b stmt) (Parser.handlers b' stmt') := by
  refine .ifAt (.bind (.handler h hs hn) fun _ _ => .bind (.many (V := fun _ => True) fun k hk => ?_) fun _ _ => ?_) (.pure trivial le_rfl)
  case refine_1 => exact .ifAt (.bind (.handler h hs (by omega)) fun _ _ => .pure (fun _ _ => trivial) le_rfl) (.pure nofun le_rfl)
  case refine_2 => exact .pure trivial (Nat.sub_le ..)

theorem tryStmt (h : b.Settles g depth b') (hs : ∀ k ≤ depth - 1, SettlesStep g k stmt stmt') (hn : n ≤ depth) (hz : g.Fits start) :
    SettlesStep g n (Parser.tryStmt b stmt start) (Parser.tryStmt b' stmt' start) := by
  refine .bind .expect fun _ _ => .bind (.body h hs (by omega)) fun _ _ => .bind (.handlers h hs (by omega)) fun _ _ => ?_
  refine .bind (.optionalBody h hs (by omega)) fun _ _ => .bind (.optionalBody h hs (by omega)) fun _ _ => .ite ?_ ?_
  case refine_1 => exact .previous fun z hz' => .failAt nofun (g.join hz hz')
  case refine_2 => exact .previous fun _ _ => .pure trivial (by omega)

theorem withItem (h : b.Settles g depth b') (hn : n ≤ depth) : SettlesStep g n (Parser.withItem b) (Parser.withItem b') := by
  refine .bind (h.test n hn) fun _ _ => .bind (.after (V := fun _ => True) (m := n - 1 - 1 - 1) ?_ (by omega)) fun _ _ => .pure trivial le_rfl
  exact .bind (h.bitOr _ (by omega)) fun _ ht => .bind (.checkTarget ht.part) fun _ _ => .pure trivial le_rfl

theorem withStmt {a : Bool} (h : b.Settles g depth b') (hs : ∀ k ≤ depth - 1, SettlesStep g k stmt stmt') (hn : n ≤ depth) :
    SettlesStep g n (Parser.withStmt b stmt start a) (Parser.withStmt b' stmt' start a) := by
  refine .bind .expect fun _ _ => .bind (.withItem h (by omega)) fun _ _ => .bind (.commaTail ?_ fun _ _ => .withItem h (by omega)) ?_
  case refine_1 => exact fun _ => .pure trivial le_rfl
  case refine_2 => exact fun _ _ => .bind (.body h hs (by omega)) fun _ _ => .previous fun _ _ => .pure trivial (by omega)

theorem asyncStmt (h : b.Settles g depth b') (hs : ∀ k ≤ depth - 1, SettlesStep g k stmt stmt') (hn : n ≤ depth) :
    SettlesStep g n (Parser.asyncStmt b stmt start) (Parser.asyncStmt b' stmt' start) := by
  have behind {p q : Parser Stmt} (hp : SettlesStep g (n - 1) p q) : Settles g (n - 1) (fun _ => True) (fun _ => n - 1) p q :=
    hp.within fun _ => Nat.sub_le ..
  refine .bind .expect fun _ _ => .peek fun o => ?_
  split
  case h_1 => exact behind (.functionDef h hs (by omega))
  case h_2 => exact behind (.forStmt h hs (by omega))
  case h_3 => exact behind (.withStmt h hs (by omega))
  case h_4 => exact .fail nofun

-- Match statements.

theorem lookAhead {p q : Parser Bool} (h : Settles g n (fun _ => True) (fun _ => n) p q) :
    Settles g n (fun _ => True) (fun _ => n) (Parser.lookAhead p) (Parser.lookAhead q) := by
  intro c d hc
  have hm := h c d hc
  unfold Parser.lookAhead
  generalize p c = r, q d = r' at hm ⊢
  cases hm
  case ok     => exact .ok trivial hc
  case error  => exact .ok trivial hc

theorem startsMatch (h : b.Settles g depth b') (hn : n ≤ depth) :
    Settles g n (fun _ => True) (fun _ => n) (Parser.startsMatch b) (Parser.startsMatch b') := by
  refine .peek fun _ => .ite (.lookAhead <| .bind .next fun _ _ => .startsExpr fun _ => .ite ?_ (.pure trivial (Nat.sub_le ..))) ?_
  case refine_1 => exact .bind (.exprList h (by omega)) fun _ _ => .view (fun _ _ => rfl) fun _ => .pure trivial (by omega)
  case refine_2 => exact .pure trivial le_rfl

-- Patterns are nested no deeper than the list is long.
theorem casePattern {x y : Pattern → Parser α} (h : b.Settles g depth b') (hn : n ≤ depth) (hx : ∀ p, Settles g (n - 1) V l (x p) (y p)) :
    Settles g n V l (do x (← Parser.openPattern (Parser.closedPattern b ((← MonadState.get).size + 1))))
      (do y (← Parser.openPattern (Parser.closedPattern b' ((← MonadState.get).size + 1)))) := by
  refine withSize fun k hk i hi j hj => .bind (.openPattern (fun m hm => ?_) le_rfl) fun p _ => (hx p).closer (Nat.sub_le_sub_right hk 1)
  exact .closedPattern h (by omega) (hm.trans hi) (hm.trans hj)

theorem matchCase (h : b.Settles g depth b') (hs : ∀ k ≤ depth - 1, SettlesStep g k stmt stmt') (hn : n ≤ depth) :
    SettlesStep g n (Parser.matchCase b stmt) (Parser.matchCase b' stmt') := by
  refine .bind .next fun word hw => .ite (.casePattern h (by omega) fun _ => ?_) (.failAt nofun hw)
  refine .bind (.after (.namedTest h (by omega)) (Nat.sub_le ..)) fun _ _ => .bind (.body h hs (by omega)) fun _ _ => ?_
  exact .previous fun _ _ => .pure trivial (by omega)

theorem matchStmt (h : b.Settles g depth b') (hs : ∀ k ≤ depth - 1, SettlesStep g k stmt stmt') (hn : n ≤ depth) (hz : g.Fits start) :
    SettlesStep g n (Parser.matchStmt b stmt start) (Parser.matchStmt b' stmt' start) := by
  refine .bind .next fun _ _ => .bind (.exprList h (by omega)) fun _ _ => .bind .expect fun _ _ => .bind .expect fun _ _ => ?_
  refine .bind .skipNewlines fun _ _ => .ifAccept (.bind (.blockItems fun _ _ => .matchCase h hs (by omega)) fun _ _ => ?_) (.fail nofun)
  exact .ite (.failAt nofun hz) <| .previous fun _ _ => .pure trivial (by omega)

-- Statements and modules.

theorem stmtForm (h : b.Settles g depth b') (hs : ∀ k ≤ depth - 1, SettlesStep g k stmt stmt') (hn : n ≤ depth) :
    SettlesStep g n (Parser.stmtForm b stmt) (Parser.stmtForm b' stmt') := by
  have one {p q : Parser Stmt} (hp : SettlesStep g n p q) : SettlesStep g n (do return [← p]) (do return [← q]) :=
    .bind hp fun _ _ => .pure trivial le_rfl
  refine .here fun start hz => .peek fun o => ?_
  split
  case h_1  => exact one (.decorated h hs hn)
  case h_2  => exact one (.functionDef h hs hn)
  case h_3  => exact one (.classDef h hs hn)
  case h_4  => exact one (.ifStmt h hs hn)
  case h_5  => exact one (.whileStmt h hs hn)
  case h_6  => exact one (.forStmt h hs hn)
  case h_7  => exact one (.tryStmt h hs hn hz)
  case h_8  => exact one (.withStmt h hs hn)
  case h_9  => exact one (.asyncStmt h hs hn)
  case h_10 => exact .bind (.startsMatch h hn) fun _ _ => .ite (one <| .matchStmt h hs hn hz) (.simpleStmts h hn)

end

-- Each statement nested in another has a token less ahead.
theorem stmt (h : b.Settles g depth b') (hn : n ≤ depth) (hi : n ≤ i) (hj : n ≤ j) : SettlesStep g n (Parser.stmt b i) (Parser.stmt b' j) := by
  refine fuel_induction (P := fun n p q => SettlesStep g n p q) (fun _ _ => .zero) (fun k hk _ i j hr => ?_) hi hj
  exact .stmtForm (h.mono (hk.trans hn)) (fun m hm => hr m (by omega)) le_rfl

theorem moduleForm {stmt stmt' : Parser (List Stmt)} (h : ∀ k ≤ n, SettlesStep g k stmt stmt') :
    Settles g n (fun _ => True) (fun _ => n) (Parser.moduleForm stmt) (Parser.moduleForm stmt') := by
  refine .bind (.many (V := fun _ => True) fun k hk => .bind .skipNewlines fun _ _ => .peek fun o => ?_) fun _ _ => .pure trivial le_rfl
  split
  case h_1 | h_2  => exact .pure nofun le_rfl
  case h_3        => exact .fail nofun
  case h_4        => exact .bind (h k hk) fun _ _ => .pure (fun _ _ => trivial) le_rfl

theorem exprForm (h : b.Settles g depth b') (hn : n ≤ depth) : SettlesStep g n (Parser.exprForm b) (Parser.exprForm b') :=
  .bind (.exprList h hn) fun _ _ => .bind .skipNewlines fun _ _ => .ifAt (.pure trivial le_rfl) (.fail nofun)

end Parser.Settles
end PyVerify
