import PyVerify.Parser.Pattern
import PyVerify.Proofs.Parser.Expression

namespace PyVerify.Parser

open Token (Kind Keyword Mark IsName)

def ClassParts.Lexical (s : ClassParts) : Prop :=
  (∀ p ∈ s.items, p.Lexical) ∧ ∀ k ∈ s.keywords, k.snd.Lexical

def MappingParts.Lexical (s : MappingParts) : Prop :=
  ∀ e ∈ s.entries, e.fst.Lexical ∧ e.snd.Lexical

theorem valuePattern_lexical {e : Expr} (h : e.Lexical) : (valuePattern e).Lexical :=
  .of_parts trivial fun | .literal => h

theorem sequence_lexical {s : Span} {ps : List Pattern} (h : ∀ p ∈ ps, p.Lexical) : (Pattern.sequence s ps).Lexical :=
  .of_parts trivial fun | .sequenceItem hp => h _ hp

-- A dotted name has a name at each place.
theorem path_lexical {e : Expr} {attrs : List Ident} (h : e.Lexical) (ha : ∀ a ∈ attrs, IsName a.text) :
    (attrs.foldl (fun e attr => .attr (e.span.join attr.span) e attr) e).Lexical :=
  foldl_lexical h fun a hm _ he => .of_parts (ha a hm) fun | .receiver => he

namespace Gives

variable {b : Below} {closed : Parser Pattern}

theorem orPattern (h : Gives Pattern.Lexical closed) : Gives Pattern.Lexical (Parser.orPattern closed) := by
  refine .bind h fun first hf => .bind (.many <| .after h) fun more hm => .ite (.pure hf) ?_
  refine .bind .previous fun _ _ => .pure <| .of_parts trivial fun | .alternative hp => ?_
  exact List.forall_mem_cons.mpr ⟨hf, hm⟩ _ hp

theorem asPattern (h : Gives Pattern.Lexical closed) : Gives Pattern.Lexical (Parser.asPattern closed) := by
  refine .bind (.orPattern h) fun p hp => .bind (.after .ident) fun _ _ => ?_
  split
  case h_1 => exact .ite .failAt <| .pure <| .of_parts trivial fun | .named => hp
  case h_2 => exact .pure hp

theorem maybeStarPattern (h : Gives Pattern.Lexical closed) :
    Gives Pattern.Lexical (Parser.maybeStarPattern closed) := by
  refine .bind .isAt fun _ _ => .ite ?_ (.asPattern h)
  exact .bind .next fun _ _ => .bind .ident fun _ _ => .pure <| .of_parts trivial nofun

theorem openPattern (h : Gives Pattern.Lexical closed) : Gives Pattern.Lexical (Parser.openPattern closed) := by
  refine .bind (.maybeStarPattern h) fun first hf => .bind .isAt fun _ _ => .ite ?_ (.pure hf)
  refine .bind (.commaTail ?_ <| .maybeStarPattern h) fun more hm => .bind .previous fun _ _ => .pure ?_
  case refine_1 => exact .bind .isAt fun _ _ => .bind .isAt fun _ _ => .pure trivial
  case refine_2 => exact sequence_lexical <| List.forall_mem_cons.mpr ⟨hf, hm⟩

theorem patternTail (h : Gives Pattern.Lexical closed) {close : Kind} {start : Span} {first : List Pattern}
    (hf : ∀ p ∈ first, p.Lexical) : Gives Pattern.Lexical (Parser.patternTail closed close start first) := by
  refine .bind (.commaTail .isAt <| .maybeStarPattern h) fun more hm => .bind .expect fun _ _ => ?_
  exact .bind .previous fun _ _ => .pure <| sequence_lexical <| List.forall_mem_append.mpr ⟨hf, hm⟩

theorem startsNumber : Gives (fun _ => True) Parser.startsNumber := by
  refine .bind .peek fun _ _ => ?_
  split <;> exact .pure trivial

theorem numberPattern (h : b.Lexical) : Gives Expr.Lexical (Parser.numberPattern b) := by
  refine .bind .here fun _ _ => .bind .accept fun negative _ => .bind .startsNumber fun _ _ => .ite .fail ?_
  refine .bind (.atom h) fun number hn => .bind .peek fun _ _ => ?_
  have hv : ∀ {s : Span}, (if negative then Expr.unary s .neg number else number).Lexical := by
    intro s
    split
    · exact .of_parts trivial fun | .operand => hn
    · exact hn
  split
  case h_2 => exact .pure hv
  case h_1 =>
    refine .bind .next fun _ _ => .bind .peek fun _ _ => ?_
    split
    case h_1 => exact .bind (.atom h) fun _ hi => .pure <| .of_parts trivial fun | .left => hv | .right => hi
    case h_2 => exact .fail

theorem classPart (h : Gives Pattern.Lexical closed) {s : ClassParts} (hs : s.Lexical) :
    Gives ClassParts.Lexical (Parser.classPart closed s) := by
  refine .bind .startsKeywordArg fun _ _ => .ite ?_ <| .ite ?_ .fail
  case refine_1 =>
    refine .bind .ident fun _ _ => .bind .next fun _ _ => .bind (.asPattern h) fun _ hp => .pure ?_
    exact ⟨hs.left, List.forall_mem_append.mpr ⟨hs.right, List.forall_mem_singleton.mpr hp⟩⟩
  case refine_2 =>
    refine .bind (.asPattern h) fun _ hp => .pure ?_
    exact ⟨List.forall_mem_append.mpr ⟨hs.left, List.forall_mem_singleton.mpr hp⟩, hs.right⟩

theorem namePattern (h : Gives Pattern.Lexical closed) : Gives Pattern.Lexical (Parser.namePattern closed) := by
  refine .bind .ident fun name hn => .bind .isAt fun _ _ => .bind .isAt fun _ _ => .ite ?_ ?_
  case refine_2 => exact .pure <| .of_parts trivial nofun
  refine .bind (.many <| .after .ident) fun attrs ha => .bind .accept fun _ _ => ?_
  have hp : (attrs.foldl (fun e attr => .attr (e.span.join attr.span) e attr) (Expr.name name.span name.text)).Lexical :=
    path_lexical (.of_parts hn nofun) ha
  refine .ite ?_ (.pure <| valuePattern_lexical hp)
  refine .bind (.foldItems (fun _ => .classPart h) ⟨nofun, nofun⟩) fun parts hs => .bind .expect fun _ _ => ?_
  refine .bind .previous fun _ _ => .pure ?_
  exact .of_parts trivial fun | .cls => hp | .classItem hi => hs.left _ hi | .classKeyword hk => hs.right _ hk

theorem mappingPart (h : Gives Pattern.Lexical closed) {s : MappingParts} (hs : s.Lexical) :
    Gives MappingParts.Lexical (Parser.mappingPart closed s) := by
  refine .bind .accept fun _ _ => .ite (.bind .ident fun _ _ => .pure hs) <| .ite .fail ?_
  refine .bind h fun key hk => ?_
  split
  case h_1 =>
    refine .bind .expect fun _ _ => .bind (.asPattern h) fun _ hp => .pure ?_
    exact List.forall_mem_append.mpr ⟨hs, List.forall_mem_singleton.mpr ⟨hk.part .literal, hp⟩⟩
  case h_2 => exact .failAt

theorem mappingPattern (h : Gives Pattern.Lexical closed) :
    Gives Pattern.Lexical (Parser.mappingPattern closed) := by
  refine .bind .expect fun _ _ => .bind (.foldItems (fun _ => .mappingPart h) nofun) fun parts hs => ?_
  refine .bind .expect fun _ _ => .bind .previous fun _ _ => .pure ?_
  exact .of_parts trivial fun | .mappingKey he => (hs _ he).left | .mappingValue he => (hs _ he).right

theorem parenPattern (h : Gives Pattern.Lexical closed) {start : Span} :
    Gives Pattern.Lexical (Parser.parenPattern closed start) := by
  refine .bind .accept fun _ _ => .ite (.bind .previous fun _ _ => .pure <| sequence_lexical nofun) ?_
  refine .bind (.maybeStarPattern h) fun first hf => .bind .isAt fun _ _ => .ite (.bind .next fun _ _ => .pure hf) ?_
  exact .patternTail h <| List.forall_mem_singleton.mpr hf

theorem bracketPattern (h : Gives Pattern.Lexical closed) {start : Span} :
    Gives Pattern.Lexical (Parser.bracketPattern closed start) := by
  refine .bind .isAt fun _ _ => .ite (.patternTail h nofun) ?_
  exact .bind (.maybeStarPattern h) fun first hf => .patternTail h <| List.forall_mem_singleton.mpr hf

theorem closedForm (hb : b.Lexical) (h : Gives Pattern.Lexical closed) :
    Gives Pattern.Lexical (Parser.closedForm b closed) := by
  have hn : Gives Pattern.Lexical (return valuePattern (← Parser.numberPattern b)) :=
    .bind (.numberPattern hb) fun _ he => .pure <| valuePattern_lexical he
  have ha : Gives Pattern.Lexical (return valuePattern (← Parser.atom b)) :=
    .bind (.atom hb) fun _ he => .pure <| valuePattern_lexical he
  refine .bind .here fun _ _ => .bind .peek fun _ _ => ?_
  split
  case h_1 | h_2 | h_3 | h_4 | h_5  => exact hn
  case h_6 | h_7 | h_8 | h_9 | h_10 => exact ha
  case h_11 => exact .namePattern h
  case h_12 => exact .bind .next fun _ _ => .parenPattern h
  case h_13 => exact .bind .next fun _ _ => .bracketPattern h
  case h_14 => exact .mappingPattern h
  case h_15 => exact .fail

theorem closedPattern (h : b.Lexical) (depth : Nat) : Gives Pattern.Lexical (Parser.closedPattern b depth) := by
  induction depth
  case zero     => exact .fail
  case succ hi  => exact .closedForm h hi

end Gives
end PyVerify.Parser
