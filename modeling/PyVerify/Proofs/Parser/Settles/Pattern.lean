import PyVerify.Parser.Pattern
import PyVerify.Proofs.Parser.Settles.Expression

namespace PyVerify

open Token (Kind Keyword Mark)

-- Parsers for patterns, which take a token or more.
abbrev Parser.SettlesPattern (g : Ground) (n : Nat) (p q : Parser Pattern) : Prop :=
  Settles g n (fun pattern => g.Fits pattern.span) (fun _ => n - 1) p q

namespace Parser

theorem SettlesPattern.behind {g : Ground} {m n : Nat} {p q : Parser Pattern} (h : SettlesPattern g m p q) (hm : m ≤ n) :
    Settles g m (fun pattern => g.Fits pattern.span) (fun _ => n - 1) p q :=
  h.within fun _ => Nat.sub_le_sub_right hm 1

namespace Settles

variable {α : Type} {V : α → Prop} {l : α → Nat} {b b' : Below} {g : Ground} {depth i j k n : Nat} {start : Span} {close : Kind}
variable {closed closed' : Parser Pattern}

theorem orPattern (h : ∀ k ≤ depth, SettlesPattern g k closed closed') (hn : n ≤ depth) :
    SettlesPattern g n (Parser.orPattern closed) (Parser.orPattern closed') := by
  refine .bind (h n hn) fun first hf => .bind (.many fun k _ => .afterStep (h (k - 1) (by omega)) (Nat.sub_le ..)) fun _ _ => ?_
  exact .ite (.pure hf le_rfl) <| .previous fun z hz => .pure (g.join hf hz) le_rfl

theorem asPattern (h : ∀ k ≤ depth, SettlesPattern g k closed closed') (hn : n ≤ depth) :
    SettlesPattern g n (Parser.asPattern closed) (Parser.asPattern closed') := by
  refine .bind (.orPattern h hn) fun pattern hp => .bind (.after .ident (Nat.sub_le ..)) fun o ho => ?_
  cases o
  case none       => exact .pure hp le_rfl
  case some name  => exact .ite (.failAt nofun <| ho name rfl) (.pure (g.join hp <| ho name rfl) le_rfl)

theorem maybeStarPattern (h : ∀ k ≤ depth, SettlesPattern g k closed closed') (hn : n ≤ depth) :
    SettlesPattern g n (Parser.maybeStarPattern closed) (Parser.maybeStarPattern closed') := by
  refine .ifAt (.bind .next fun star hs => .bind .ident fun name hm => ?_) (.asPattern h hn)
  exact .pure (g.join hs hm) (Nat.sub_le ..)

theorem openPattern (h : ∀ k ≤ depth, SettlesPattern g k closed closed') (hn : n ≤ depth) :
    SettlesPattern g n (Parser.openPattern closed) (Parser.openPattern closed') := by
  refine .bind (.maybeStarPattern h hn) fun first hf => .ifAt (.bind (.commaTail ?_ fun _ _ => .maybeStarPattern h (by omega)) ?_) ?_
  case refine_1 => exact fun _ => .isAt fun _ => .isAt fun _ => .pure trivial le_rfl
  case refine_2 => exact fun _ _ => .previous fun z hz => .pure (g.join hf hz) le_rfl
  case refine_3 => exact .pure hf le_rfl

theorem patternTail {first : List Pattern} (h : ∀ k ≤ depth, SettlesPattern g k closed closed') (hn : n ≤ depth) (hs : g.Fits start) :
    SettlesPattern g n (Parser.patternTail closed close start first) (Parser.patternTail closed' close start first) := by
  refine .bind (.commaTail (fun _ => .isAt fun _ => .pure trivial le_rfl) fun _ _ => .maybeStarPattern h (by omega)) fun _ _ => ?_
  exact .bind .expect fun _ _ => .previous fun z hz => .pure (g.join hs hz) le_rfl

theorem startsNumber {x y : Bool → Parser α} (h : ∀ b, Settles g n V l (x b) (y b)) :
    Settles g n V l (Parser.startsNumber >>= x) (Parser.startsNumber >>= y) := by
  refine .look (.peek fun o => ?_) h
  split <;> exact .pure trivial le_rfl

theorem numberPattern (h : b.Settles g depth b') (hn : n ≤ depth + 1) :
    Settles g n (fun e => g.Fits e.span) (fun _ => n - 1) (Parser.numberPattern b) (Parser.numberPattern b') := by
  refine .here fun start hs => .accepted fun k hk negative => .startsNumber fun _ => .ite (.fail nofun) ?_
  refine .bind (.atom h (by omega)) fun number hm => ?_
  have hv : g.Fits (if negative then Expr.unary (start.join number.span) .neg number else number).span := by
    split
    case isTrue   => exact g.join hs hm.span
    case isFalse  => exact hm.span
  refine .peek fun o => ?_
  split
  case h_2 => exact .pure hv (by omega)
  case h_1 =>
    refine .bind .next fun _ _ => .peek fun o => ?_
    split
    case h_1 => exact .bind (.atom h (by omega)) fun imaginary hi => .pure (g.join hs hi.span) (by omega)
    case h_2 => exact .fail nofun

theorem classPart {s : ClassParts} (h : ∀ k ≤ depth, SettlesPattern g k closed closed') (hn : n ≤ depth) :
    SettlesStep g n (Parser.classPart closed s) (Parser.classPart closed' s) := by
  refine .startsKeywordArg fun _ => .ite ?keyword <| .ite ?positional (.fail nofun)
  case keyword =>
    exact .bind .ident fun _ _ => .bind .next fun _ _ => .bind (.asPattern h (by omega)) fun _ _ => .pure trivial (by omega)
  case positional => exact .bind (.asPattern h hn) fun _ _ => .pure trivial le_rfl

theorem spans_foldl_attr {e : Expr} {attrs : List Ident} (he : g.Fits e.span) (ha : ∀ a ∈ attrs, g.Fits a.span) :
    g.Fits (attrs.foldl (fun e attr => .attr (e.span.join attr.span) e attr) e).span := by
  induction attrs generalizing e
  case nil => exact he
  case cons a attrs hi =>
    obtain ⟨hz, ha⟩ := List.forall_mem_cons.mp ha
    exact hi (e := .attr ..) (g.join he hz) ha

theorem namePattern (h : ∀ k ≤ depth, SettlesPattern g k closed closed') (hn : n ≤ depth + 1) :
    SettlesPattern g n (Parser.namePattern closed) (Parser.namePattern closed') := by
  refine .bind .ident fun name hm => .isAt fun _ => .isAt fun _ => .ite ?path (.pure hm le_rfl)
  refine .bind (.many fun _ _ => .afterStep .ident (Nat.sub_le ..)) fun attrs ha => .ifAccept ?arguments ?value
  case value => exact .pure (spans_foldl_attr (e := .name ..) hm ha) le_rfl
  case arguments =>
    refine .bind (.foldItems (fun _ _ _ _ => .classPart h (by omega)) trivial) fun _ _ => .bind .expect fun _ _ => ?_
    exact .previous fun z hz => .pure (g.join hm hz) (by omega)

theorem mappingPart {s : MappingParts} (h : ∀ k ≤ depth, SettlesPattern g k closed closed') (hn : n ≤ depth) :
    SettlesStep g n (Parser.mappingPart closed s) (Parser.mappingPart closed' s) := by
  refine .ifAccept (.bind .ident fun _ _ => .pure trivial (Nat.sub_le ..)) <| .ite (.fail nofun) <| .bind (h n hn) fun p hp => ?_
  split
  case h_1 => exact .bind .expect fun _ _ => .bind (.asPattern h (by omega)) fun _ _ => .pure trivial (by omega)
  case h_2 => exact .failAt nofun hp

theorem mappingPattern (h : ∀ k ≤ depth, SettlesPattern g k closed closed') (hn : n ≤ depth + 1) :
    SettlesPattern g n (Parser.mappingPattern closed) (Parser.mappingPattern closed') := by
  refine .bind .expect fun brace hb => .bind (.foldItems (fun _ _ _ _ => .mappingPart h (by omega)) trivial) fun _ _ => ?_
  exact .bind .expect fun _ _ => .previous fun z hz => .pure (g.join hb hz) (by omega)

theorem parenPattern (h : ∀ k ≤ depth, SettlesPattern g k closed closed') (hn : n ≤ depth) (hs : g.Fits start) :
    SettlesPattern g n (Parser.parenPattern closed start) (Parser.parenPattern closed' start) := by
  refine .ifAccept (.previous fun z hz => .pure (g.join hs hz) le_rfl) <| .bind (.maybeStarPattern h hn) fun first hf => ?_
  exact .isAt fun _ => .ite (.bind .next fun _ _ => .pure hf (by omega)) ((patternTail h (by omega) hs).behind (by omega))

theorem bracketPattern (h : ∀ k ≤ depth, SettlesPattern g k closed closed') (hn : n ≤ depth) (hs : g.Fits start) :
    SettlesPattern g n (Parser.bracketPattern closed start) (Parser.bracketPattern closed' start) := by
  refine .ifAt (.patternTail h hn hs) <| .bind (.maybeStarPattern h hn) fun _ _ => ?_
  exact (patternTail h (by omega) hs).behind (by omega)

theorem closedForm (hb : b.Settles g depth b') (h : ∀ k ≤ n - 1, SettlesPattern g k closed closed') (hn : n ≤ depth + 1) :
    SettlesPattern g n (Parser.closedForm b closed) (Parser.closedForm b' closed') := by
  refine .here fun start hs => .peek fun o => ?_
  split
  case h_1 | h_2 | h_3 | h_4 | h_5    => exact .bind (.numberPattern hb hn) fun _ he => .pure he le_rfl
  case h_6 | h_7 | h_8 | h_9 | h_10   => exact .bind (.atom hb hn) fun _ he => .pure he.span le_rfl
  case h_11                           => exact .namePattern h (by omega)
  case h_12 => exact .bind .next fun _ _ => (parenPattern h le_rfl hs).behind (Nat.sub_le n 1)
  case h_13 => exact .bind .next fun _ _ => (bracketPattern h le_rfl hs).behind (Nat.sub_le n 1)
  case h_14 => exact .mappingPattern h (by omega)
  case h_15 => exact .fail nofun

-- Each pattern nested in another has a token less ahead.
theorem closedPattern (hb : b.Settles g depth b') (hn : n ≤ depth + 1) (hi : n ≤ i) (hj : n ≤ j) :
    SettlesPattern g n (Parser.closedPattern b i) (Parser.closedPattern b' j) := by
  refine fuel_induction (P := fun n p q => SettlesPattern g n p q) (fun _ _ => .zero) (fun k hk _ i j hr => ?_) hi hj
  exact .closedForm hb (fun m hm => hr m (by omega)) (hk.trans hn)

end Settles
end Parser
end PyVerify
