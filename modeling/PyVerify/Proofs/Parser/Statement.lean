import PyVerify.Parser.Statement
import PyVerify.Proofs.Parser.Pattern

namespace PyVerify

open Token (Kind Keyword Mark IsName)

def WithItem.Lexical (i : WithItem) : Prop :=
  i.context.Lexical ∧ ∀ x ∈ i.binding, x.Lexical

def Handler.Lexical (c : Handler Stmt) : Prop :=
  (∀ x ∈ c.type, x.Lexical) ∧ ∀ t ∈ c.body, t.Lexical

structure MatchCase.Lexical (c : MatchCase Stmt) : Prop where
  pattern : c.pattern.Lexical
  guard   : ∀ x ∈ c.guard, x.Lexical
  body    : ∀ t ∈ c.body, t.Lexical

namespace Parser

theorem deleteTargets_lexical {e : Expr} (h : e.Lexical) : ∀ x ∈ deleteTargets e, x.Lexical := by
  unfold deleteTargets
  split
  case h_1 => exact fun x hx => h.part <| .tupleItem hx
  case h_2 => exact List.forall_mem_singleton.mpr h

theorem splitLast_lexical {first : Expr} {es : List Expr} (hf : first.Lexical) (h : ∀ e ∈ es, e.Lexical) :
    (∀ e ∈ (splitLast first es).fst, e.Lexical) ∧ (splitLast first es).snd.Lexical := by
  induction es generalizing first
  case nil => exact ⟨nofun, hf⟩
  case cons e es hi =>
    obtain ⟨he, hs⟩ := List.forall_mem_cons.mp h
    obtain ⟨ht, hv⟩ := hi he hs
    exact ⟨List.forall_mem_cons.mpr ⟨hf, ht⟩, hv⟩

namespace Gives

-- A statement that is read up to its span.
abbrev Form (p : Parser (Span → Stmt)) : Prop :=
  Gives (fun form => ∀ s, (form s).Lexical) p

theorem dottedName : Gives (fun _ => True) Parser.dottedName :=
  .bind .ident fun _ _ => .bind (.many <| .after .ident) fun _ _ => .pure trivial

theorem aliasOf {P : String → Prop} {name : Parser Ident} (h : Gives (fun i => P i.text) name) :
    Gives (fun a => P a.name) (Parser.aliasOf name) :=
  .bind h fun _ hn => .bind (.after .ident) fun _ _ => .bind .previous fun _ _ => .pure hn

theorem importedNames : Gives (fun as => ∀ a ∈ as, a.IsLexical) Parser.importedNames := by
  have ha : Gives Alias.IsLexical (Parser.aliasOf Parser.ident) := (Gives.aliasOf .ident).mono fun _ => .inr
  refine .bind .isAt fun _ _ => .ite ?star <| .bind .accept fun _ _ => .ite ?parens ?_
  case star => exact .bind .next fun _ _ => .pure <| List.forall_mem_singleton.mpr <| .inl rfl
  case parens =>
    refine .bind (.foldItems (fun names hs => ?_) nofun) fun _ hs => .bind .expect fun _ _ => .pure hs
    exact .bind ha fun _ hn => .pure <| List.forall_mem_append.mpr ⟨hs, List.forall_mem_singleton.mpr hn⟩
  refine .bind ha fun _ hf => .bind (.commaTail (.pure trivial) ha) fun _ hm => .pure ?_
  exact List.forall_mem_cons.mpr ⟨hf, hm⟩

theorem importFrom : Form Parser.importFrom := by
  refine .bind .expect fun _ _ => .bind (.many (P := fun _ => True) <| .bind .peek fun _ _ => ?groups) ?_
  case groups =>
    split
    · exact .bind .next fun _ _ => .some trivial
    · exact .none
  refine fun groups _ => .bind .peek fun _ _ => ?_
  split
  case' h_1 => refine .bind .dottedName fun _ _ => ?_
  all_goals
    refine .ite .fail <| .bind .expect fun _ _ => .bind .importedNames fun _ ha => .pure ?_
    exact fun s => .of_parts ha nofun

theorem nameList : Gives (fun _ => True) Parser.nameList :=
  .bind .ident fun _ _ => .bind (.commaTail (.pure trivial) .ident) fun _ _ => .pure trivial

theorem checkTargets {es : List Expr} : Gives (fun _ => True) (es.forM Parser.checkTarget) := by
  induction es
  case nil => exact .pure trivial
  case cons hi => exact .bind .checkTarget fun _ _ => hi

section

variable {b : Below}

theorem exprListOrYield (h : b.Lexical) : Gives Expr.Lexical (Parser.exprListOrYield b) :=
  .bind .isAt fun _ _ => .ite (.yieldExpr h) (.exprList h)

theorem typeParam (h : b.Lexical) : Gives (fun _ => True) (Parser.typeParam b) := by
  refine .bind .accept fun _ _ => .ite (.bind .accept fun _ _ => ?_) ?_
  all_goals
    refine .bind .ident fun _ _ => .bind (.after h.test) fun _ _ => .bind (.after h.test) fun _ _ => ?_
    exact .pure trivial

theorem typeParams (h : b.Lexical) : Gives (fun _ => True) (Parser.typeParams b) := by
  refine .bind .accept fun _ _ => .ite ?_ (.pure trivial)
  refine .bind (.foldItems (S := fun _ => True) (fun _ _ => ?_) trivial) fun _ _ => .bind .expect fun _ _ => .pure trivial
  exact .bind (.typeParam h) fun _ _ => .pure trivial

theorem typeAlias (h : b.Lexical) : Form (Parser.typeAlias b) := by
  refine .bind .next fun _ _ => .bind .ident fun _ _ => .bind (.typeParams h) fun _ _ => .bind .expect fun _ _ => ?_
  exact .bind h.test fun _ hv => .pure fun s => .of_parts trivial fun | .aliased => hv

theorem startsTypeAlias : Gives (fun _ => True) Parser.startsTypeAlias := by
  refine .bind .get fun _ _ => ?_
  split <;> exact .pure trivial

theorem exprStmt (h : b.Lexical) : Form (Parser.exprStmt b) := by
  refine .bind (.exprListOrYield h) fun first hf => .bind .peek fun _ _ => ?_
  split
  case h_1 =>
    refine .bind .next fun _ _ => .ite (.bind (.exprListOrYield h) fun _ hv => .pure fun s => ?_) .failAt
    exact .of_parts trivial fun | .augmented => hf | .augment => hv
  case h_2 =>
    refine .bind .accept fun _ _ => .ite ?typed ?plain
    case typed =>
      refine .bind .checkTarget fun _ _ => .bind h.test fun _ ha => ?_
      refine .bind (.after <| .exprListOrYield h) fun _ hv => .pure fun s => ?_
      exact .of_parts trivial fun
        | .annotated      => hf
        | Part.annotation => ha
        | .annotatedValue => hv _ rfl
    case plain =>
      refine .bind (.many <| .after <| .exprListOrYield h) fun more hm => .ite ?_ <| .bind .checkTargets fun _ _ => ?_
      case refine_1 => exact .pure fun s => .of_parts trivial fun | .alone => hf
      case refine_2 =>
        obtain ⟨ht, hv⟩ := splitLast_lexical hf hm
        exact .pure fun s => .of_parts trivial fun | .assigned hx => ht _ hx | .assignment => hv

theorem smallForm (h : b.Lexical) : Form (Parser.smallForm b) := by
  refine .bind .peek fun _ _ => ?_
  split
  case h_1 | h_2 | h_3 => exact .bind .next fun _ _ => .pure fun s => .of_parts trivial nofun
  case h_4 =>
    refine .bind .next fun _ _ => .bind .startsExpr fun _ _ => .ite (.bind (.exprList h) fun _ hv => .pure ?_) (.pure ?_)
    · exact fun s => .of_parts trivial fun | .returned => hv
    · exact fun s => .of_parts trivial nofun
  case h_5 =>
    refine .bind .next fun _ _ => .bind (.targetList h) fun _ ht => .bind .checkTargets fun _ _ => .pure fun s => ?_
    exact .of_parts trivial fun | .deleted hx => deleteTargets_lexical ht _ hx
  case h_6 =>
    refine .bind .next fun _ _ => .bind .startsExpr fun _ _ => .ite ?_ (.pure fun s => .of_parts trivial nofun)
    refine .bind h.test fun _ he => .bind (.after h.test) fun _ hc => .pure fun s => ?_
    exact .of_parts trivial fun | .exception => he | .cause => hc _ rfl
  case h_7 | h_8 => exact .bind .next fun _ _ => .bind .nameList fun _ _ => .pure fun s => .of_parts trivial nofun
  case h_9 =>
    refine .bind .next fun _ _ => .bind h.test fun _ ht => .bind (.after h.test) fun _ hm => .pure fun s => ?_
    exact .of_parts trivial fun | .asserted => ht | .message => hm _ rfl
  case h_10 =>
    have ha : Gives (fun _ => True) (Parser.aliasOf Parser.dottedName) := .aliasOf (P := fun _ => True) .dottedName
    refine .bind .next fun _ _ => .bind ha fun _ _ => .bind (.commaTail (.pure trivial) ha) fun _ _ => .pure fun s => ?_
    exact .of_parts trivial nofun
  case h_11 => exact .importFrom
  case h_12 => exact .bind .startsTypeAlias fun _ _ => .ite (.typeAlias h) (.exprStmt h)

theorem smallStmt (h : b.Lexical) : Gives Stmt.Lexical (Parser.smallStmt b) :=
  .bind .here fun _ _ => .bind (.smallForm h) fun _ hf => .bind .previous fun _ _ => .pure (hf _)

theorem endOfLine : Gives (fun _ => True) Parser.endOfLine :=
  .bind .accept fun _ _ => .ite (.pure trivial) <| .bind .isAt fun _ _ => .bind .isAt fun _ _ => .ite (.pure trivial) .fail

theorem simpleStmts (h : b.Lexical) : Gives (fun ss => ∀ s ∈ ss, s.Lexical) (Parser.simpleStmts b) := by
  refine .bind (.smallStmt h) fun first hf => .bind (.many (P := Stmt.Lexical) <| .bind .accept fun _ _ => ?_) ?_
  case refine_1 =>
    refine .ite ?_ .none
    refine .bind .isAt fun _ _ => .bind .isAt fun _ _ => .ite .none ?_
    exact .bind (.smallStmt h) fun _ hs => .some hs
  case refine_2 => exact fun more hm => .bind .endOfLine fun _ _ => .pure <| List.forall_mem_cons.mpr ⟨hf, hm⟩

abbrev Block (p : Parser (List Stmt)) : Prop :=
  Gives (fun ss => ∀ s ∈ ss, s.Lexical) p

theorem blockItems {α : Type} {P : α → Prop} {item : Parser α} (h : Gives P item) :
    Gives (fun as => ∀ a ∈ as, P a) (Parser.blockItems item) := by
  refine .many <| .bind .skipNewlines fun _ _ => .bind .accept fun _ _ => .ite .none ?_
  exact .bind .isAt fun _ _ => .ite .none <| .bind h fun _ ha => .some ha

variable {nested : Parser (List Stmt)} {start : Span} {decorators : List Expr}

theorem suite (h : b.Lexical) (hs : Block nested) : Block (Parser.suite b nested) := by
  refine .bind .accept fun _ _ => .ite (.bind .skipNewlines fun _ _ => .bind .accept fun _ _ => ?_) (.simpleStmts h)
  refine .ite (.bind (.blockItems hs) fun sss hl => .pure ?_) .fail
  exact List.forall_mem_flatten.mpr hl

theorem body (h : b.Lexical) (hs : Block nested) : Block (Parser.body b nested) :=
  .bind .expect fun _ _ => .suite h hs

theorem optionalBody {word : Keyword} (h : b.Lexical) (hs : Block nested) :
    Block (Parser.optionalBody b nested word) := by
  refine .bind (.after <| .body h hs) fun o ho => .pure ?_
  cases o
  case none => nofun
  case some => exact ho _ rfl

theorem functionDef {isAsync : Bool} (h : b.Lexical) (hs : Block nested) (hd : ∀ x ∈ decorators, x.Lexical) :
    Gives Stmt.Lexical (Parser.functionDef b nested start decorators isAsync) := by
  refine .bind .expect fun _ _ => .bind .ident fun name hn => .bind .expect fun _ _ => ?_
  refine .bind (.params h) fun params hp => .bind .expect fun _ _ => .bind (.after h.test) fun returns hr => ?_
  refine .bind (.body h hs) fun block hb => .bind .previous fun _ _ => .pure ?_
  exact .of_parts ⟨hn, fun p hm => (hp p hm).left⟩ fun
    | .functionDecorator hx => hd _ hx
    | .functionParam hm hx  => (hp _ hm).right hx
    | .functionResult       => hr _ rfl
    | .functionBody ht      => hb _ ht

theorem classDef (h : b.Lexical) (hs : Block nested) (hd : ∀ x ∈ decorators, x.Lexical) :
    Gives Stmt.Lexical (Parser.classDef b nested start decorators) := by
  refine .bind .expect fun _ _ => .bind .ident fun _ _ => .bind (.after (P := Arguments.Lexical) ?_) fun args ha => ?_
  case refine_1 => exact .bind (.arguments h) fun _ ha => .bind .expect fun _ _ => .pure ha
  case refine_2 =>
    have ha : (args.getD ⟨[], []⟩).Lexical := by
      cases args
      case none => exact .nil
      case some => exact ha _ rfl
    refine .bind (.body h hs) fun block hb => .bind .previous fun _ _ => .pure ?_
    exact .of_parts trivial fun
      | .classDecorator hx  => hd _ hx
      | .base hx            => ha.args _ hx
      | .classArgument hk   => ha.keywords _ hk
      | .classBody ht       => hb _ ht

theorem decorator (h : b.Lexical) : Gives Expr.Lexical (Parser.decorator b) :=
  .bind (.namedTest h) fun _ he => .bind .expect fun _ _ => .bind .skipNewlines fun _ _ => .pure he

theorem decorated (h : b.Lexical) (hs : Block nested) : Gives Stmt.Lexical (Parser.decorated b nested start) := by
  refine .bind (.many <| .after <| .decorator h) fun ds hd => .bind .get fun _ _ => ?_
  split
  case h_1 => exact .functionDef h hs hd
  case h_2 => exact .classDef h hs hd
  case h_3 => exact .ite (.bind .next fun _ _ => .functionDef h hs hd) .fail
  case h_4 => exact .fail

theorem branch (h : b.Lexical) (hs : Block nested) :
    Gives (fun r => r.snd.fst.Lexical ∧ ∀ t ∈ r.snd.snd, t.Lexical) (Parser.branch b nested) :=
  .bind .next fun _ _ => .bind (.namedTest h) fun _ ht => .bind (.body h hs) fun _ hb => .pure ⟨ht, hb⟩

theorem if_lexical {s : Span} {test : Expr} {block other : List Stmt} (ht : test.Lexical)
    (hb : ∀ t ∈ block, t.Lexical) (ho : ∀ t ∈ other, t.Lexical) : (Stmt.if s test block other).Lexical :=
  .of_parts trivial fun | .ifTest => ht | .ifBody hm => hb _ hm | .ifElse hm => ho _ hm

theorem ifStmt (h : b.Lexical) (hs : Block nested) : Gives Stmt.Lexical (Parser.ifStmt b nested start) := by
  refine .bind .expect fun _ _ => .bind (.namedTest h) fun test ht => .bind (.body h hs) fun block hb => ?_
  refine .bind (.many <| .bind .isAt fun _ _ => .ite (.bind (.branch h hs) fun _ hr => .some hr) .none) fun rs hr => ?_
  refine .bind (.optionalBody h hs) fun other ho => .bind .previous fun stop _ => .pure <| if_lexical ht hb ?_
  induction rs
  case nil => exact ho
  case cons r rs hi =>
    obtain ⟨⟨ht, hb⟩, hr⟩ := List.forall_mem_cons.mp hr
    exact List.forall_mem_singleton.mpr <| if_lexical ht hb (hi hr)

theorem whileStmt (h : b.Lexical) (hs : Block nested) : Gives Stmt.Lexical (Parser.whileStmt b nested start) := by
  refine .bind .expect fun _ _ => .bind (.namedTest h) fun test ht => .bind (.body h hs) fun block hb => ?_
  refine .bind (.optionalBody h hs) fun other ho => .bind .previous fun stop _ => .pure ?_
  exact .of_parts trivial fun | .whileTest => ht | .whileBody hm => hb _ hm | .whileElse hm => ho _ hm

theorem forStmt {isAsync : Bool} (h : b.Lexical) (hs : Block nested) :
    Gives Stmt.Lexical (Parser.forStmt b nested start isAsync) := by
  refine .bind .expect fun _ _ => .bind (.targetList h) fun target ht => .bind .checkTarget fun _ _ => ?_
  refine .bind .expect fun _ _ => .bind (.exprList h) fun iter hi => .bind (.body h hs) fun block hb => ?_
  refine .bind (.optionalBody h hs) fun other ho => .bind .previous fun _ _ => .pure ?_
  exact .of_parts trivial fun
    | .forTarget  => ht
    | .forIter    => hi
    | .forBody hm => hb _ hm
    | .forElse hm => ho _ hm

theorem handler {wanted : Option Bool} (h : b.Lexical) (hs : Block nested) :
    Gives (fun c => c.snd.Lexical) (Parser.handler b nested wanted) := by
  refine .bind .next fun word _ => .bind .accept fun star _ => .ite .failAt <| .bind .isAt fun _ _ => ?_
  refine .ite (.bind (.none (P := Expr.Lexical)) ?_) (.bind (.bind h.test fun _ ht => .some ht) ?_)
  all_goals
    refine fun type ht => .ite (.bind (.pure (P := fun _ => True) trivial) fun name _ => ?_) ?_
    case' refine_2 => refine .bind (.after .ident) fun name _ => ?_
    all_goals exact .bind (.body h hs) fun _ hb => .bind .previous fun _ _ => .pure ⟨ht, hb⟩

theorem handlers (h : b.Lexical) (hs : Block nested) :
    Gives (fun c => ∀ d ∈ c.snd, d.Lexical) (Parser.handlers b nested) := by
  refine .bind .isAt fun _ _ => .ite (.bind (.handler h hs) fun first hf => ?_) (.pure nofun)
  refine .bind (.many (P := Handler.Lexical) <| .bind .isAt fun _ _ => .ite ?_ .none) fun more hm => .pure ?_
  case refine_1 => exact .bind (.handler h hs) fun _ hc => .some hc
  case refine_2 => exact List.forall_mem_cons.mpr ⟨hf, hm⟩

theorem tryStmt (h : b.Lexical) (hs : Block nested) : Gives Stmt.Lexical (Parser.tryStmt b nested start) := by
  refine .bind .expect fun _ _ => .bind (.body h hs) fun block hb => .bind (.handlers h hs) fun cs hc => ?_
  refine .bind (.optionalBody h hs) fun other ho => .bind (.optionalBody h hs) fun final hf => .ite ?_ ?_
  case refine_1 => exact .bind .previous fun _ _ => .failAt
  case refine_2 =>
    refine .bind .previous fun _ _ => .pure ?_
    exact .of_parts trivial fun
      | .tried hm       => hb _ hm
      | .caught hm hx   => (hc _ hm).left _ hx
      | .handler hm ht  => (hc _ hm).right _ ht
      | .tryElse hm     => ho _ hm
      | .tryFinally hm  => hf _ hm

theorem withItem (h : b.Lexical) : Gives WithItem.Lexical (Parser.withItem b) := by
  refine .bind h.test fun _ hc => .bind (.after <| .bind h.bitOr fun _ ht => .bind .checkTarget fun _ _ => .pure ht) ?_
  exact fun _ hb => .pure ⟨hc, hb⟩

theorem withStmt {isAsync : Bool} (h : b.Lexical) (hs : Block nested) :
    Gives Stmt.Lexical (Parser.withStmt b nested start isAsync) := by
  refine .bind .expect fun _ _ => .bind (.withItem h) fun first hf => ?_
  refine .bind (.commaTail (.pure trivial) <| .withItem h) fun more hm => .bind (.body h hs) fun block hb => ?_
  refine .bind .previous fun _ _ => .pure ?_
  have hi : ∀ i ∈ first :: more, i.Lexical := List.forall_mem_cons.mpr ⟨hf, hm⟩
  exact .of_parts trivial fun
    | .context hm     => (hi _ hm).left
    | .binding hm hx  => (hi _ hm).right _ hx
    | .withBody hm    => hb _ hm

theorem asyncStmt (h : b.Lexical) (hs : Block nested) : Gives Stmt.Lexical (Parser.asyncStmt b nested start) := by
  refine .bind .expect fun _ _ => .bind .peek fun _ _ => ?_
  split
  case h_1 => exact .functionDef h hs nofun
  case h_2 => exact .forStmt h hs
  case h_3 => exact .withStmt h hs
  case h_4 => exact .fail

-- A look ahead comes back to where it started.
theorem lookAhead {test : Parser Bool} : Gives (fun _ => True) (Parser.lookAhead test) := by
  intro c a d hc h
  unfold Parser.lookAhead at h
  split at h
  all_goals
    cases h
    exact ⟨trivial, hc⟩

theorem startsMatch : Gives (fun _ => True) (Parser.startsMatch b) :=
  .bind .peek fun _ _ => .ite .lookAhead (.pure trivial)

theorem matchCase (h : b.Lexical) (hs : Block nested) : Gives MatchCase.Lexical (Parser.matchCase b nested) := by
  refine .bind .next fun _ _ => .ite (.bind .get fun _ _ => ?_) .failAt
  refine .bind (.openPattern <| .closedPattern h _) fun _ hp => .bind (.after <| .namedTest h) fun _ hg => ?_
  exact .bind (.body h hs) fun _ hb => .bind .previous fun _ _ => .pure ⟨hp, hg, hb⟩

theorem matchStmt (h : b.Lexical) (hs : Block nested) : Gives Stmt.Lexical (Parser.matchStmt b nested start) := by
  refine .bind .next fun _ _ => .bind (.exprList h) fun subject hx => .bind .expect fun _ _ => ?_
  refine .bind .expect fun _ _ => .bind .skipNewlines fun _ _ => .bind .accept fun _ _ => .ite ?_ .fail
  refine .bind (.blockItems <| .matchCase h hs) fun cases hc => .ite .failAt <| .bind .previous fun _ _ => .pure ?_
  exact .of_parts trivial fun
    | .subject        => hx
    | .casePattern hm => (hc _ hm).pattern
    | .guard hm hg    => (hc _ hm).guard _ hg
    | .caseBody hm ht => (hc _ hm).body _ ht

theorem stmtForm (h : b.Lexical) (hs : Block nested) : Block (Parser.stmtForm b nested) := by
  have one : ∀ {p : Parser Stmt}, Gives Stmt.Lexical p → Block (return [← p]) :=
    fun hp => .bind hp fun _ ht => .pure <| List.forall_mem_singleton.mpr ht
  refine .bind .here fun _ _ => .bind .peek fun _ _ => ?_
  split
  case h_1 => exact one (.decorated h hs)
  case h_2 => exact one (.functionDef h hs nofun)
  case h_3 => exact one (.classDef h hs nofun)
  case h_4 => exact one (.ifStmt h hs)
  case h_5 => exact one (.whileStmt h hs)
  case h_6 => exact one (.forStmt h hs)
  case h_7 => exact one (.tryStmt h hs)
  case h_8 => exact one (.withStmt h hs)
  case h_9 => exact one (.asyncStmt h hs)
  case h_10 => exact .bind .startsMatch fun _ _ => .ite (one <| .matchStmt h hs) (.simpleStmts h)

theorem stmt (h : b.Lexical) (depth : Nat) : Block (Parser.stmt b depth) := by
  induction depth
  case zero     => exact .fail
  case succ hi  => exact .stmtForm h hi

theorem moduleForm (hs : Block nested) : Gives (fun m => ∀ s ∈ m.body, s.Lexical) (Parser.moduleForm nested) := by
  refine .bind (.many (P := fun ss => ∀ s ∈ ss, s.Lexical) <| .bind .skipNewlines fun _ _ => .bind .peek ?_) ?_
  case refine_1 =>
    intro k? _
    split
    case h_1 | h_2 => exact .none
    case h_3 => exact .fail
    case h_4 => exact .bind hs fun _ ht => .some ht
  case refine_2 => exact fun _ hl => .pure <| List.forall_mem_flatten.mpr hl

end

end Gives
end Parser

-- The names and the strings in the tree of a text are such as the text has.
theorem Module.parse_lexical {text : List Char} {m : Module} (h : Module.parse text = .ok m) :
    ∀ s ∈ m.body, s.Lexical := by
  obtain ⟨tokens, ht, h⟩ := exists_ok_of_bind h
  have hm : Token.parseModule tokens = .ok m := by
    cases hr : Token.parseModule tokens <;> rw [hr] at h <;> cases h
    rfl
  exact (Parser.Gives.moduleForm <| .stmt (Below.lexical_ofDepth _) _).of_run (Token.tokenize_isLexical ht) hm

end PyVerify
