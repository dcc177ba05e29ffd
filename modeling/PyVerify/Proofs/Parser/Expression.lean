import PyVerify.Parser.Expression
import PyVerify.Proofs.Parser.Gives
import PyVerify.Proofs.Tree.Lexical

namespace PyVerify

open Token (Kind Keyword Mark IsName)
open Code (isEscaped)

-- The parsers for what is nested in an expression.
structure Below.Lexical (b : Below) : Prop where
  test    : Parser.Gives Expr.Lexical b.test
  orTest  : Parser.Gives Expr.Lexical b.orTest
  notTest : Parser.Gives Expr.Lexical b.notTest
  bitOr   : Parser.Gives Expr.Lexical b.bitOr
  factor  : Parser.Gives Expr.Lexical b.factor

def Param.Lexical (p : Param Expr) : Prop :=
  IsName p.name.text ∧ ∀ {x}, p.Holds x → x.Lexical

def Generator.Lexical (g : Generator Expr) : Prop :=
  ∀ x, g.Holds x → x.Lexical

def DictEntry.Lexical (d : DictEntry Expr) : Prop :=
  ∀ x, d.Holds x → x.Lexical

theorem Expr.Lexical.tuple {s : Span} {x : Expr} {xs : List Expr} (h : x.Lexical) (hs : ∀ x ∈ xs, x.Lexical) :
    (Expr.tuple s (x :: xs)).Lexical :=
  .of_parts trivial fun | .tupleItem hx => List.forall_mem_cons.mpr ⟨h, hs⟩ _ hx

namespace Parser

namespace Gives

theorem sequence {item : Parser Expr} (h : Gives Expr.Lexical item) : Gives Expr.Lexical (Parser.sequence item) := by
  refine .bind h fun first hf => .bind .isAt fun _ _ => .ite ?_ (.pure hf)
  refine .bind (.commaTail ?_ h) fun more hm => .bind .previous fun _ _ => .pure ?_
  case refine_1 => exact .bind .startsExpr fun _ _ => .pure trivial
  case refine_2 => exact .tuple hf hm

variable {b : Below}

theorem starred (h : b.Lexical) : Gives Expr.Lexical (Parser.starred b) :=
  .bind .expect fun _ _ => .bind h.bitOr fun _ hv => .pure <| .of_parts trivial fun | .starred => hv

theorem namedTest (h : b.Lexical) : Gives Expr.Lexical (Parser.namedTest b) := by
  refine .bind h.test fun e he => .bind .isAt fun _ _ => .ite (.ite ?_ .failAt) (.pure he)
  refine .bind .next fun _ _ => .bind h.test fun value hv => .pure ?_
  exact .of_parts trivial fun | .namedTarget => he | .namedValue => hv

theorem starOrNamed (h : b.Lexical) : Gives Expr.Lexical (Parser.starOrNamed b) :=
  .bind .isAt fun _ _ => .ite (.starred h) (.namedTest h)

theorem exprList (h : b.Lexical) : Gives Expr.Lexical (Parser.exprList b) :=
  .sequence (.starOrNamed h)

theorem targetList (h : b.Lexical) : Gives Expr.Lexical (Parser.targetList b) :=
  .sequence <| .bind .isAt fun _ _ => .ite (.starred h) h.bitOr

theorem checkTarget {e : Expr} : Gives (fun _ => True) (Parser.checkTarget e) := by
  unfold Parser.checkTarget
  split
  case h_1 => exact .failAt
  case h_2 => exact .pure trivial

theorem annotated {allowed : Bool} (h : b.Lexical) :
    Gives (fun o => ∀ x ∈ o, x.Lexical) ( Parser.annotation b allowed) :=
  .ite (.after h.test) .none

theorem param {close : Kind} {annotated : Bool} (h : b.Lexical) {s : ParamsSoFar} (hs : ∀ p ∈ s.params, p.Lexical) :
    Gives (fun s => ∀ p ∈ s.params, p.Lexical) (Parser.param b close annotated s) := by
  have hp : ∀ {p : Param Expr}, p.Lexical → ∀ q ∈ s.params ++ [p], q.Lexical :=
    fun hp => List.forall_mem_append.mpr ⟨hs, List.forall_mem_singleton.mpr hp⟩
  refine .bind .here fun _ _ => .bind .accept fun _ _ => .ite (.pure hs) ?_
  refine .bind .accept fun _ _ => .ite ?keywords <| .bind .accept fun _ _ => .ite ?star ?plain
  case keywords =>
    refine .bind .ident fun name hn => .bind (.annotated h) fun _ ha => .bind .previous fun _ _ => .pure <| hp ?_
    exact ⟨hn, fun | .type hx => ha _ hx⟩
  case star =>
    refine .bind .isAt fun _ _ => .bind .isAt fun _ _ => .ite (.pure hs) ?_
    refine .bind .ident fun name hn => .bind (.annotated h) fun _ ha => .bind .previous fun _ _ => .pure <| hp ?_
    exact ⟨hn, fun | .type hx => ha _ hx⟩
  case plain =>
    refine .bind .ident fun name hn => .bind (.annotated h) fun _ ha => .bind (.after h.test) fun _ hd => ?_
    exact .bind .previous fun _ _ => .pure <| hp ⟨hn, fun | .type hx => ha _ hx | .default hx => hd _ hx⟩

theorem params {close : Kind} {annotated : Bool} (h : b.Lexical) :
    Gives (fun ps => ∀ p ∈ ps, p.Lexical) (Parser.params b close annotated) :=
  .bind (.foldItems (fun _ => .param h) nofun) fun _ hs => .pure hs

theorem generators (h : b.Lexical) : Gives (fun gs => ∀ g ∈ gs, g.Lexical) (Parser.generators b) := by
  refine .many <| .bind .isAt fun isAsync _ => .bind .isAt fun _ _ => .ite ?_ .none
  refine .ite (.bind .next fun _ _ => ?_) ?_
  all_goals
    refine .bind .expect fun _ _ => .bind (.targetList h) fun target ht => .bind .checkTarget fun _ _ => ?_
    refine .bind .expect fun _ _ => .bind h.orTest fun iter hi => .bind (.many <| .after h.orTest) fun cs hc => ?_
    exact .some fun | _, .target => ht | _, .iter => hi | _, .condition hx => hc _ hx

theorem startsGenerators : Gives (fun _ => True) Parser.startsGenerators :=
  .bind .isAt fun _ _ => .bind .isAt fun _ _ => .pure trivial

theorem startsKeywordArg : Gives (fun _ => True) Parser.startsKeywordArg := by
  refine .bind .get fun _ _ => ?_
  split <;> exact .pure trivial

end Gives

structure Arguments.Lexical (s : Arguments) : Prop where
  args     : ∀ x ∈ s.args, x.Lexical
  keywords : ∀ k ∈ s.keywords, k.value.Lexical

namespace Arguments.Lexical

variable {s : Arguments}

theorem nil : Lexical ⟨[], []⟩ :=
  ⟨nofun, nofun⟩

theorem arg {x : Expr} (h : s.Lexical) (hx : x.Lexical) : Lexical { s with args := s.args ++ [x] } :=
  ⟨List.forall_mem_append.mpr ⟨h.args, List.forall_mem_singleton.mpr hx⟩, h.keywords⟩

theorem keyword {k : KeywordArg Expr} (h : s.Lexical) (hk : k.value.Lexical) :
    Lexical { s with keywords := s.keywords ++ [k] } :=
  ⟨h.args, List.forall_mem_append.mpr ⟨h.keywords, List.forall_mem_singleton.mpr hk⟩⟩

end Arguments.Lexical

namespace Gives

variable {b : Below}

theorem argument (h : b.Lexical) {s : Arguments} (hs : s.Lexical) :
    Gives Arguments.Lexical (Parser.argument b s) := by
  refine .bind .isAt fun _ _ => .ite ?star <| .bind .isAt fun _ _ => .ite ?stars ?_
  case star =>
    exact .bind .next fun _ _ => .bind h.test fun _ hv => .pure <| hs.arg <| .of_parts trivial fun | .starred => hv
  case stars => exact .bind .next fun _ _ => .bind h.test fun _ hv => .pure <| hs.keyword hv
  refine .bind .startsKeywordArg fun _ _ => .ite ?byName <| .bind (.namedTest h) fun arg ha => ?_
  case byName =>
    exact .bind .ident fun _ _ => .bind .next fun _ _ => .bind h.test fun _ hv => .pure <| hs.keyword hv
  refine .bind .startsGenerators fun _ _ => .ite ?_ (.pure <| hs.arg ha)
  refine .bind (.generators h) fun gs hg => .bind .previous fun _ _ => .pure <| hs.arg ?_
  exact .of_parts trivial fun | .generatorItem => ha | .generatorGen hm hx => hg _ hm _ hx

theorem arguments (h : b.Lexical) : Gives Arguments.Lexical (Parser.arguments b) :=
  .foldItems (fun _ => .argument h) .nil

theorem optionalTest (h : b.Lexical) : Gives (fun o => ∀ x ∈ o, x.Lexical) (Parser.optionalTest b) :=
  .bind .startsExpr fun _ _ => .ite (.bind h.test fun _ hx => .some hx) .none

theorem sliceTail (h : b.Lexical) {start : Span} {lower : Option Expr} (hl : ∀ x ∈ lower, x.Lexical) :
    Gives Expr.Lexical (Parser.sliceTail b start lower) := by
  refine .bind .expect fun _ _ => .bind (.optionalTest h) fun upper hu => .bind (.after <| .optionalTest h) ?_
  refine fun step hs => .bind .previous fun _ _ => .pure ?_
  have hs : ∀ x ∈ step.join, x.Lexical := fun x hx => hs _ (Option.join_eq_some_iff.mp hx) x rfl
  generalize step.join = o at hs
  exact .of_parts trivial fun | .lower => hl _ rfl | .upper => hu _ rfl | .step => hs _ rfl

theorem subscriptItem (h : b.Lexical) : Gives Expr.Lexical (Parser.subscriptItem b) := by
  refine .bind .here fun _ _ => .bind .isAt fun _ _ => .ite (.sliceTail h nofun) ?_
  exact .bind (.starOrNamed h) fun e he => .bind .isAt fun _ _ => .ite (.sliceTail h <| by simpa) (.pure he)

theorem subscriptList (h : b.Lexical) : Gives Expr.Lexical (Parser.subscriptList b) := by
  refine .bind (.subscriptItem h) fun first hf => .bind .isAt fun _ _ => .ite ?_ (.pure hf)
  exact .bind (.commaTail .isAt <| .subscriptItem h) fun more hm => .bind .previous fun _ _ => .pure <| .tuple hf hm

theorem yieldExpr (h : b.Lexical) : Gives Expr.Lexical (Parser.yieldExpr b) := by
  refine .bind .expect fun _ _ => .bind .accept fun _ _ => .ite ?_ <| .bind .startsExpr fun _ _ => .ite ?_ ?_
  case refine_1 => exact .bind h.test fun _ hv => .pure <| .of_parts trivial fun | .yieldFrom => hv
  case refine_2 =>
    exact .bind (.exprList h) fun _ hv => .bind .previous fun _ _ => .pure <| .of_parts trivial fun | .yield => hv
  case refine_3 => exact .bind .previous fun _ _ => .pure <| .of_parts trivial nofun

theorem parenAtom (h : b.Lexical) {start : Span} : Gives Expr.Lexical (Parser.parenAtom b start) := by
  refine .bind .isAt fun _ _ => .ite ?empty <| .bind .isAt fun _ _ => .ite ?yield ?_
  case empty => exact .bind .next fun _ _ => .pure <| .of_parts trivial nofun
  case yield => exact .bind (.yieldExpr h) fun _ hv => .bind .expect fun _ _ => .pure hv
  refine .bind (.starOrNamed h) fun first hf => .bind .startsGenerators fun _ _ => .ite ?generator ?_
  case generator =>
    refine .bind (.generators h) fun gs hg => .bind .expect fun _ _ => .pure ?_
    exact .of_parts trivial fun | .generatorItem => hf | .generatorGen hm hx => hg _ hm _ hx
  refine .bind .isAt fun _ _ => .ite ?tuple (.bind .expect fun _ _ => .pure hf)
  exact .bind (.commaTail .isAt <| .starOrNamed h) fun _ hm => .bind .expect fun _ _ => .pure <| .tuple hf hm

theorem listAtom (h : b.Lexical) {start : Span} : Gives Expr.Lexical (Parser.listAtom b start) := by
  refine .bind .isAt fun _ _ => .ite (.bind .next fun _ _ => .pure <| .of_parts trivial nofun) ?_
  refine .bind (.starOrNamed h) fun first hf => .bind .startsGenerators fun _ _ => .ite ?comp ?list
  case comp =>
    refine .bind (.generators h) fun gs hg => .bind .expect fun _ _ => .pure ?_
    exact .of_parts trivial fun | .listCompItem => hf | .listCompGen hm hx => hg _ hm _ hx
  case list =>
    refine .bind (.commaTail .isAt <| .starOrNamed h) fun _ hm => .bind .expect fun _ _ => .pure ?_
    exact .of_parts trivial fun | .listItem hx => List.forall_mem_cons.mpr ⟨hf, hm⟩ _ hx

theorem dictEntry (h : b.Lexical) : Gives DictEntry.Lexical (Parser.dictEntry b) := by
  refine .bind .accept fun _ _ => .ite (.bind h.bitOr fun _ hm => .pure fun | _, .mapping => hm) ?_
  refine .bind h.test fun key hk => .bind .expect fun _ _ => .bind h.test fun value hv => .pure ?_
  exact fun | _, .key => hk | _, .value => hv

theorem dictTail (h : b.Lexical) {start : Span} {first : DictEntry Expr} (hf : first.Lexical) :
    Gives Expr.Lexical (Parser.dictTail b start first) := by
  refine .bind (.commaTail .isAt <| .dictEntry h) fun _ hm => .bind .expect fun _ _ => .pure ?_
  exact .of_parts trivial fun | .entry hd hx => List.forall_mem_cons.mpr ⟨hf, hm⟩ _ hd _ hx

theorem braceAtom (h : b.Lexical) {start : Span} : Gives Expr.Lexical (Parser.braceAtom b start) := by
  refine .bind .isAt fun _ _ => .ite (.bind .next fun _ _ => .pure <| .of_parts trivial nofun) ?_
  refine .bind .accept fun _ _ => .ite (.bind h.bitOr fun _ hm => .dictTail h fun | _, .mapping => hm) ?_
  refine .bind (.starOrNamed h) fun first hf => .bind .accept fun _ _ => .ite ?dict ?set
  case dict =>
    refine .bind h.test fun value hv => .bind .startsGenerators fun _ _ => .ite ?_ ?_
    case refine_1 =>
      refine .bind (.generators h) fun gs hg => .bind .expect fun _ _ => .pure ?_
      exact .of_parts trivial fun | .dictCompKey => hf | .dictCompValue => hv | .dictCompGen hm hx => hg _ hm _ hx
    case refine_2 => exact .dictTail h fun | _, .key => hf | _, .value => hv
  case set =>
    refine .bind .startsGenerators fun _ _ => .ite ?_ ?_
    case refine_1 =>
      refine .bind (.generators h) fun gs hg => .bind .expect fun _ _ => .pure ?_
      exact .of_parts trivial fun | .setCompItem => hf | .setCompGen hm hx => hg _ hm _ hx
    case refine_2 =>
      refine .bind (.commaTail .isAt <| .starOrNamed h) fun _ hm => .bind .expect fun _ _ => .pure ?_
      exact .of_parts trivial fun | .setItem hx => List.forall_mem_cons.mpr ⟨hf, hm⟩ _ hx

theorem adjacentStrings :
    Gives (fun more => ∀ part ∈ more, isEscaped part.fst.toList) (Parser.adjacent strBody?) := by
  refine .many <| .bind .peek fun k? hk => ?_
  split
  case h_1 body hb =>
    obtain ⟨k, rfl, hs⟩ := Option.bind_eq_some_iff.mp hb
    obtain rfl : k = .str body := by
      unfold strBody? at hs
      split at hs
      · rw [Option.some.inj hs]
      · cases hs
    exact .bind .next fun _ _ => .some <| hk _ rfl
  case h_2 => exact .none

theorem adjacent {body? : Kind → Option String} : Gives (fun _ => True) (Parser.adjacent body?) := by
  refine .any <| .many (P := fun _ => True) <| .bind .peek fun _ _ => ?_
  split
  case h_1 => exact .bind .next fun _ _ => .some trivial
  case h_2 => exact .none

end Gives

theorem joinLiterals_str {body : String} {s : Span} {more : List (String × Span)} (h : isEscaped body.toList)
    (hm : ∀ part ∈ more, isEscaped part.fst.toList) : (joinLiterals .str body s more).Lexical := by
  refine .of_parts ?_ nofun
  suffices hf : isEscaped (more.foldl (fun text part => text ++ part.fst) body).toList from hf
  induction more generalizing body
  case nil => exact h
  case cons part more hi =>
    obtain ⟨hp, hm⟩ := List.forall_mem_cons.mp hm
    exact hi (by simpa using Token.isEscaped_append h hp) hm

namespace Gives

theorem atom (h : b.Lexical) : Gives Expr.Lexical (Parser.atom b) := by
  refine .bind .next fun t ht => ?_
  split
  case h_1 hk => exact .pure <| .of_parts (hk ▸ ht : Kind.IsLexical (.name _)) nofun
  case h_6 hk => exact .bind .adjacentStrings fun _ hm => .pure <| joinLiterals_str (hk ▸ ht : Kind.IsLexical (.str _)) hm
  case h_7 => exact .bind .adjacent fun _ _ => .pure <| .of_parts trivial nofun
  case h_12 => exact .parenAtom h
  case h_13 => exact .listAtom h
  case h_14 => exact .braceAtom h
  case h_15 | h_16 | h_17 | h_18 => exact .failAt
  all_goals exact .pure <| .of_parts trivial nofun

end Gives

-- What stands behind an expression makes another one of it.
def Trailer.Lexical (t : Trailer) : Prop :=
  ∀ {e : Expr}, e.Lexical → (t.apply e).Lexical

theorem foldl_lexical {α : Type} {f : Expr → α → Expr} {as : List α} {e : Expr} (he : e.Lexical)
    (h : ∀ a ∈ as, ∀ {e : Expr}, e.Lexical → (f e a).Lexical) : (as.foldl f e).Lexical := by
  induction as generalizing e
  case nil => exact he
  case cons a as hi =>
    obtain ⟨ha, has⟩ := List.forall_mem_cons.mp h
    exact hi (ha he) has

namespace Gives

theorem trailer (h : b.Lexical) : Gives (fun o => ∀ t ∈ o, t.Lexical) (Parser.trailer b) := by
  refine .bind .accept fun _ _ => .ite ?call <| .bind .accept fun _ _ => .ite ?subscript ?_
  case call =>
    refine .bind (.arguments h) fun args ha => .bind .expect fun _ _ => .some fun he => ?_
    exact .of_parts trivial fun | .func => he | .arg hx => ha.args _ hx | .keyword hk => ha.keywords _ hk
  case subscript =>
    refine .bind (.subscriptList h) fun index hi => .bind .expect fun _ _ => .some fun he => ?_
    exact .of_parts trivial fun | .indexed => he | .index => hi
  refine .bind .accept fun _ _ => .ite (.bind .ident fun name hn => .some ?_) .none
  exact fun he => .of_parts hn fun | .receiver => he

theorem primary (h : b.Lexical) : Gives Expr.Lexical (Parser.primary b) :=
  .bind (.atom h) fun _ he => .bind (.many <| .trailer h) fun _ ht => .pure <| foldl_lexical he ht

theorem awaited (h : b.Lexical) : Gives Expr.Lexical (Parser.awaited b) := by
  refine .bind .isAt fun _ _ => .ite (.bind .next fun _ _ => ?_) (.primary h)
  exact .bind (.primary h) fun _ hv => .pure <| .of_parts trivial fun | .await => hv

theorem power (h : b.Lexical) : Gives Expr.Lexical (Parser.power b) := by
  refine .bind (.awaited h) fun base hb => .bind .accept fun _ _ => .ite ?_ (.pure hb)
  exact .bind h.factor fun _ he => .pure <| .of_parts trivial fun | .left => hb | .right => he

theorem factor (h : b.Lexical) : Gives Expr.Lexical (Parser.factor b) := by
  refine .bind .peek fun _ _ => ?_
  split
  case h_1 => exact .bind .next fun _ _ => .bind h.factor fun _ hx => .pure <| .of_parts trivial fun | .operand => hx
  case h_2 => exact .power h

theorem binaryLevel {op? : Kind → Option BinaryOp} {operand : Parser Expr} (h : Gives Expr.Lexical operand) :
    Gives Expr.Lexical (Parser.binaryLevel op? operand) := by
  refine .bind h fun first hf => .bind (.many (P := fun m => m.snd.Lexical) <| .bind .peek fun _ _ => ?_) ?_
  case refine_1 =>
    split
    case h_1 => exact .bind .next fun _ _ => .bind h fun _ hx => .some hx
    case h_2 => exact .none
  case refine_2 =>
    refine fun more hm => .pure <| foldl_lexical hf fun m hx _ he => ?_
    exact .of_parts trivial fun | .left => he | .right => hm m hx

theorem bitOr (h : b.Lexical) : Gives Expr.Lexical (Parser.bitOr b) :=
  .binaryLevel <| .binaryLevel <| .binaryLevel <| .binaryLevel <| .binaryLevel <| .binaryLevel <| .factor h

theorem compareOp : Gives (fun _ => True) Parser.compareOp := by
  have hs : ∀ {op : CompareOp}, Gives (fun _ => True) (do let _ ← Parser.next; return some op) :=
    .bind .next fun _ _ => .pure trivial
  have hd : ∀ {op : CompareOp}, Gives (fun _ => True) (do let _ ← Parser.next; let _ ← Parser.next; return some op) :=
    .bind .next fun _ _ => hs
  refine .bind .get fun _ _ => ?_
  split
  case h_8 => exact .ite hd (.pure trivial)
  case h_9 => exact .ite hd hs
  case h_10 => exact .pure trivial
  all_goals exact hs

theorem comparison (h : b.Lexical) : Gives Expr.Lexical (Parser.comparison b) := by
  refine .bind (.bitOr h) fun left hl => .bind (.many (P := fun l => l.snd.Lexical) <| .bind .compareOp fun _ _ => ?_) ?_
  case refine_1 =>
    split
    case h_1 => exact .bind (.bitOr h) fun _ hx => .some hx
    case h_2 => exact .none
  case refine_2 =>
    refine fun links hs => .ite (.pure hl) <| .bind .previous fun _ _ => .pure ?_
    exact .of_parts trivial fun | .compared => hl | .link hx => hs _ hx

theorem notTest (h : b.Lexical) : Gives Expr.Lexical (Parser.notTest b) := by
  refine .bind .isAt fun _ _ => .ite (.bind .next fun _ _ => ?_) (.comparison h)
  exact .bind h.notTest fun _ hx => .pure <| .of_parts trivial fun | .operand => hx

theorem boolLevel {word : Keyword} {op : BoolOp} {operand : Parser Expr} (h : Gives Expr.Lexical operand) :
    Gives Expr.Lexical (Parser.boolLevel word op operand) := by
  refine .bind h fun first hf => .bind (.many <| .after h) fun more hm => ?_
  split
  case h_1 => exact .pure <| .of_parts trivial fun | .value hx => List.forall_mem_cons.mpr ⟨hf, hm⟩ _ hx
  case h_2 => exact .pure hf

theorem orTest (h : b.Lexical) : Gives Expr.Lexical (Parser.orTest b) :=
  .boolLevel <| .boolLevel <| .notTest h

theorem lambda (h : b.Lexical) : Gives Expr.Lexical (Parser.lambda b) := by
  refine .bind .expect fun _ _ => .bind (.params h) fun params hp => .bind .expect fun _ _ => ?_
  refine .bind h.test fun body hx => .pure ?_
  exact .of_parts trivial fun | .lambdaParam hm hh => (hp _ hm).right hh | .lambdaBody => hx

theorem test (h : b.Lexical) : Gives Expr.Lexical (Parser.test b) := by
  refine .bind .isAt fun _ _ => .ite (.lambda h) <| .bind (.orTest h) fun body hb => .bind .accept fun _ _ => ?_
  refine .ite (.bind (.orTest h) fun _ hc => .bind .expect fun _ _ => .bind h.test fun _ ho => .pure ?_) (.pure hb)
  exact .of_parts trivial fun | .test => hc | .body => hb | .orelse => ho

end Gives
end Parser

-- Whatever the depth, an expression that is read has the names and the strings of the text.
theorem Below.lexical_ofDepth (depth : Nat) : (Below.ofDepth depth).Lexical := by
  induction depth
  case zero => exact ⟨.fail, .fail, .fail, .fail, .fail⟩
  case succ hi => exact ⟨.test hi, .orTest hi, .notTest hi, .bitOr hi, .factor hi⟩

end PyVerify
