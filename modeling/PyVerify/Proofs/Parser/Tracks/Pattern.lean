import PyVerify.Parser.Pattern
import PyVerify.Proofs.Parser.Tracks.Expression

namespace PyVerify

open Token (Kind Keyword Mark)

variable {f g : Recasting}

namespace Parser

instance : Recast ClassParts :=
  ⟨fun f s => ⟨s.items.map (Pattern.recast f), s.keywords.map (Prod.map (Ident.recast f) (Pattern.recast f))⟩⟩

instance : Recast MappingParts :=
  ⟨fun f s => ⟨s.entries.map (Prod.map (Expr.recast f) (Pattern.recast f)), s.rest.map (Ident.recast f)⟩⟩

@[simp] theorem recast_classParts (s : ClassParts) :
    Recast.recast f s = ⟨s.items.map (Pattern.recast f), s.keywords.map (Prod.map (Ident.recast f) (Pattern.recast f))⟩ := rfl

@[simp] theorem recast_mappingParts (s : MappingParts) :
    Recast.recast f s = ⟨s.entries.map (Prod.map (Expr.recast f) (Pattern.recast f)), s.rest.map (Ident.recast f)⟩ := rfl

namespace Tracks

variable {B : Bridge f g} {b b' : Below} {closed closed' : Parser Pattern} {m : Nat} {a : Bool} {start start' : Span}

-- The underscore is told from other names.
theorem captured (hf : Faithful f g) {i i' : Ident} (h : Same f g i i') : Same f g (Parser.captured i) (Parser.captured i') := by
  have ht : i.text = i'.text := hf _ _ <| by simp_all
  unfold Parser.captured
  rw [ht]
  split <;> simp_all

theorem orPattern (h : Operand B closed closed') : Operand B (Parser.orPattern closed) (Parser.orPattern closed') := by
  intro m a
  refine .bind (h m a) fun p p' hp => .bind (.many_items <| .after (.plain rfl) <| h m true) fun ps ps' hps => .ite ?_ (.pure hp) ?_
  case refine_1 => simpa using congrArg List.isEmpty hps
  case refine_2 =>
    refine .previous fun w w' hw => .pure ?_
    have hz := hp.pattern_span
    simp_all

theorem asPattern (hf : Faithful f g) (h : Operand B closed closed') : Operand B (Parser.asPattern closed) (Parser.asPattern closed') := by
  intro m a
  refine .bind (orPattern h m a) fun p p' hp => .bind (.after (.plain rfl) .ident) fun o o' ho => ?_
  cases o <;> cases o'
  case none.none => exact .pure hp
  case some.some i i' =>
    have hi : Same f g i i' := Option.some.inj ho
    have ht : i.text = i'.text := hf _ _ <| by simp_all
    refine .iteProp (by rw [ht]) (fun _ => .failAt) (.pure ?_)
    have hz := hp.pattern_span
    simp_all
  all_goals cases ho

theorem maybeStarPattern (hf : Faithful f g) (h : Operand B closed closed') :
    Operand B (Parser.maybeStarPattern closed) (Parser.maybeStarPattern closed') := by
  intro m a
  refine .ifAt rfl (.bind (.nextAt <| .plain rfl) fun t u ht => .bind .ident fun i i' hi => .pure ?_) (asPattern hf h m a)
  have hc := captured hf hi
  simp_all [ht.left.span]

theorem openPattern (hf : Faithful f g) (h : Operand B closed closed') :
    Operand B (Parser.openPattern closed) (Parser.openPattern closed') := by
  intro m a
  refine .bind (maybeStarPattern hf h m a) fun p p' hp => .ifAt rfl (.seen <| .bind (.commaTail ?_ <| maybeStarPattern hf h m true) ?_) (.pure hp)
  case refine_1 => exact .bind (.isAt rfl) fun _ _ hx => .bind (.isAt rfl) fun _ _ hy => .pure (by rw [hx, hy])
  case refine_2 =>
    refine fun ps ps' hps => .previous fun w w' hw => .pure ?_
    have hz := hp.pattern_span
    simp_all

theorem patternTail (hf : Faithful f g) (h : Operand B closed closed') {close : Kind} (hc : close.closesBracket) (hz : f.place start = g.place start')
    {first first' : List Pattern} (hps : Same f g first first') : Tracks (B.rel (m + 1) true) (Same f g) (B.rel m true)
      (Parser.patternTail closed close start first) (Parser.patternTail closed' close start' first') := by
  have hn : close.isName = false := (Kind.Turns.closes hc (m := m) (a := true)).not_isName
  refine .bind (.commaTail (.isAt hn) <| maybeStarPattern hf h _ _) fun ps ps' hqs => .bind (.expect <| .closes hc) fun _ _ _ => ?_
  refine .previous fun w w' hw => .pure ?_
  simp_all

theorem startsNumber : Tracks (B.rel m a) Eq (B.rel m a) Parser.startsNumber Parser.startsNumber := by
  refine .peek (fun o ho => ?_) fun x y _ => .seen <| .pure rfl
  split <;> exact .seen <| .pure rfl

theorem signs_complexOp? : Kind.Signs complexOp? := by
  refine ⟨fun _ => rfl, fun k op h => ?_⟩
  unfold complexOp? at h
  split at h <;> first | rfl | cases h

theorem numberPattern (h : b.Tracks B b') : Operand B (Parser.numberPattern b) (Parser.numberPattern b') := by
  intro m a
  refine .here fun z z' hz => .bind (.accepts rfl) fun x y hx => .bind startsNumber fun x' y' hx' => ?_
  obtain rfl := hx
  refine .ite (by rw [hx']) .fail <| .bind (atom h m a) fun e e' he => .peekSign signs_complexOp? (fun k op hk => ?_) fun o o' ho ho' => ?_
  all_goals
    have hw := he.span
    have hv : Same f g (if x then .unary (z.join e.span) .neg e else e) (if x then .unary (z'.join e'.span) .neg e' else e') := by
      split <;> simp_all
  case refine_1 =>
    rw [Option.bind_some, hk]
    refine .bind (.nextAt <| .plain <| signs_complexOp?.plain k op hk) fun _ _ _ => .peek (fun o ho => ?_) fun _ _ _ => .seen .fail
    split
    case h_1 =>
      refine .seen <| .bind (atom h m true) fun i i' hi => .pure ?_
      have hs := hi.span
      simp_all
    case h_2 => exact .fail
  case refine_2 =>
    rw [ho, ho']
    exact .pure hv

theorem classPart (hf : Faithful f g) (h : Operand B closed closed') {s s' : ClassParts} (hs : Same f g s s') :
    Tracks (B.rel m true) (Same f g) (B.rel m true) (Parser.classPart closed s) (Parser.classPart closed' s') := by
  refine .startsKeywordArg (.bind keywordName fun i i' hi => .bind (.nextAt <| .plain rfl) fun _ _ _ => ?_) <| .ite ?_ ?_ .fail
  case refine_1 =>
    refine .bind (asPattern hf h m true) fun p p' hp => .pure ?_
    simp_all
  case refine_2 => simpa using congrArg (·.keywords.isEmpty) hs
  case refine_3 =>
    refine .bind (asPattern hf h m true) fun p p' hp => .pure ?_
    simp_all

theorem recast_foldl_attr (attrs : List Ident) (e : Expr) :
    (attrs.foldl (fun e attr => .attr (e.span.join attr.span) e attr) e).recast f =
      (attrs.map (Ident.recast f)).foldl (fun e attr => .attr (e.span.join attr.span) e attr) (e.recast f) := by
  induction attrs generalizing e <;> simp_all

theorem namePattern (hf : Faithful f g) (h : Operand B closed closed') :
    Operand B (Parser.namePattern closed) (Parser.namePattern closed') := by
  intro m a
  refine .bind .ident fun i i' hi => .bind (.isAt rfl) fun _ _ hx => .bind (.isAt rfl) fun _ _ hy => .ite (by rw [hx, hy]) ?path (.pure ?capture)
  case capture =>
    have hc := captured hf hi
    simp_all
  case path =>
    refine .bind (.many_items <| .after (.plain rfl) .ident) fun is is' his => ?_
    have he : Same f g (is.foldl (fun e attr => .attr (e.span.join attr.span) e attr) (Expr.name i.span i.text))
        (is'.foldl (fun e attr => .attr (e.span.join attr.span) e attr) (Expr.name i'.span i'.text)) := by
      simp_all [recast_foldl_attr]
    refine .ifAccept (.opens rfl) (.bind (.foldItems rfl (fun _ _ => classPart hf h) rfl) fun s s' hs => ?_) (.pure ?_)
    case refine_1 =>
      refine .bind (.expect <| .closes rfl) fun _ _ _ => .previous fun w w' hw => .pure ?_
      simp_all
    case refine_2 =>
      have hz := he.span
      simp_all [valuePattern]

theorem mappingPart (hf : Faithful f g) (h : Operand B closed closed') {s s' : MappingParts} (hs : Same f g s s') :
    Tracks (B.rel m true) (Same f g) (B.rel m true) (Parser.mappingPart closed s) (Parser.mappingPart closed' s') := by
  refine .ifAccept (.plain rfl) (.bind .ident fun i i' hi => .pure ?_) <| .ite ?_ .fail <| .bind (h m true) fun p p' hp => ?_
  case refine_1 => simp_all
  case refine_2 => simpa using congrArg (·.rest.isSome) hs
  case refine_3 =>
    cases p <;> cases p'
    case value.value =>
      refine .bind (.expect .colon) fun _ _ _ => .bind (asPattern hf h m false) fun q q' hq => .pure ?_
      simp_all
    all_goals first
      | exact .failAt
      | cases hp

theorem mappingPattern (hf : Faithful f g) (h : Operand B closed closed') :
    Operand B (Parser.mappingPattern closed) (Parser.mappingPattern closed') := by
  intro m a
  refine .bind (.expect <| .opens rfl) fun t u ht => .bind (.foldItems rfl (fun _ _ => mappingPart hf h) rfl) fun s s' hs => ?_
  refine .bind (.expect <| .closes rfl) fun _ _ _ => .previous fun w w' hw => .pure ?_
  simp_all [ht.span]

theorem isStar_eq {p p' : Pattern} (h : Same f g p p') : isStar p = isStar p' := by
  cases p <;> cases p' <;> first | rfl | cases h

theorem parenPattern (hf : Faithful f g) (h : Operand B closed closed') (hz : f.place start = g.place start') :
    Tracks (B.rel (m + 1) true) (Same f g) (B.rel m true) (Parser.parenPattern closed start) (Parser.parenPattern closed' start') := by
  refine .ifAccept (.closes rfl) (.previous fun w w' hw => .pure ?_) <| .bind (maybeStarPattern hf h _ _) fun p p' hp => ?_
  case refine_1 => simp_all
  have ht : Tracks (B.rel (m + 1) true) (Same f g) (B.rel m true)
      (Parser.patternTail closed Mark.closeParen start [p]) (Parser.patternTail closed' Mark.closeParen start' [p']) :=
    patternTail hf h rfl hz <| by simp_all
  refine .isAtThen rfl (.ite (by rw [isStar_eq hp]) (.bind (.nextAt <| .closes rfl) fun _ _ _ => .pure hp) ht.seen) ?_
  rwa [Bool.and_false, Bool.and_false]

theorem bracketPattern (hf : Faithful f g) (h : Operand B closed closed') (hz : f.place start = g.place start') :
    Tracks (B.rel (m + 1) true) (Same f g) (B.rel m true) (Parser.bracketPattern closed start) (Parser.bracketPattern closed' start') := by
  refine .ifAt rfl (.seen <| patternTail hf h rfl hz rfl) <| .bind (maybeStarPattern hf h _ _) fun p p' hp => patternTail hf h rfl hz ?_
  simp_all

theorem closedForm (hf : Faithful f g) (hb : b.Tracks B b') (h : Operand B closed closed') :
    Operand B (Parser.closedForm b closed) (Parser.closedForm b' closed') := by
  intro m a
  refine .here fun z z' hz => .peek (fun o ho => ?_) fun _ _ _ => .seen <| namePattern hf h m a
  have hv {p p' : Parser Expr} (h : Operand B p p') {o : Option Kind} : Tracks (Ahead o (B.rel m a)) (Same f g) (B.rel m true)
      (do return valuePattern (← p)) (do return valuePattern (← p')) := by
    refine .seen <| .bind (h m a) fun e e' he => .pure ?_
    have hz := he.span
    simp_all [valuePattern]
  split
  case h_11 => exact .seen <| namePattern hf h m a
  case h_12 => exact .bind (.nextAt <| .opens rfl) fun _ _ _ => parenPattern hf h hz
  case h_13 => exact .bind (.nextAt <| .opens rfl) fun _ _ _ => bracketPattern hf h hz
  case h_14 => exact .seen <| mappingPattern hf h m a
  case h_15 => exact .fail
  all_goals first
    | exact hv <| numberPattern hb
    | exact hv <| atom hb

end Tracks

theorem tracks_closedPattern {B : Bridge f g} (hf : Faithful f g) {b b' : Below} (hb : b.Tracks B b') {i j : Nat} (h : i ≤ j) :
    Operand B (closedPattern b i) (closedPattern b' j) := by
  induction i generalizing j
  case zero => exact fun m a => .fail
  case succ i hi =>
    obtain ⟨j, rfl⟩ := Nat.exists_eq_add_of_le' (Nat.lt_of_lt_of_le i.succ_pos h)
    exact .closedForm hf hb <| hi (Nat.le_of_succ_le_succ h)

end Parser
end PyVerify
