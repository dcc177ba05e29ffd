import PyVerify.Parser.Pattern
import PyVerify.Proofs.Parser.Reads.Expression

namespace PyVerify.Parser

open Token (Kind Keyword Mark)

variable {f : ℕ →o ℕ}

-- A parser for patterns.
abbrev ReadsPattern (f : ℕ →o ℕ) (c : Cursor) (p : Parser Pattern) : Prop :=
  Ends f c (fun x d => c.Gets f (.pattern x) d) p

def ClassParts.parts (s : ClassParts) : List Item :=
  s.items.map .pattern ++ s.keywords.flatMap fun (name, p) => [.ident name, .pattern p]

def MappingParts.parts (s : MappingParts) : List Item :=
  s.entries.flatMap (fun (key, p) => [.expr key, .pattern p]) ++ s.rest.toList.map .ident

theorem captured_subset {name : Ident} : (captured name).toList.map Item.ident ⊆ [.ident name] := by
  unfold captured
  split <;> simp

namespace Ends

variable {c d e : Cursor} {b : Below} {closed : Parser Pattern} {start : Span}

theorem orPattern (h : ∀ c, ReadsPattern f c closed) : ReadsPattern f c (Parser.orPattern closed) := by
  refine .bind (h c) fun first c₁ hf => .bind (.many_after h) fun more _ hm => ?_
  refine .ite (fun _ => .pure <| hf.move hm.moves) fun hn => .previous <| .pure ?_
  refine (hf.append hm).close rfl (by simp) (.pattern ?_)
  have hn : more ≠ [] := by simpa using hn
  simpa [Pattern.WellFormed, Nat.one_le_iff_ne_zero] using hn

theorem asPattern (h : ∀ c, ReadsPattern f c closed) : ReadsPattern f c (Parser.asPattern closed) := by
  refine .bind (.orPattern h) fun p c₁ hp =>
    .bind (.after (P := fun i d => ∃ c₂, c₁.Moves f c₂ ∧ c₂.Gets f (.ident i) d) ?_) fun o _ ho => ?_
  case refine_1 => exact fun _ c₂ ht _ => .mono .ident_item fun _ _ hi => ⟨c₂, ht.moves, hi⟩
  cases o
  case none => exact .pure <| hp.move ho
  case some =>
    obtain ⟨c₂, hm, hi⟩ := ho
    exact .ite (fun _ => .failAt) fun _ => .pure <| (hp.move hm).upto hi rfl (by simp) (.pattern trivial)

theorem maybeStarPattern (h : ∀ c, ReadsPattern f c closed) : ReadsPattern f c (Parser.maybeStarPattern closed) := by
  refine .ifAt (fun hc => .bind .next fun _ c₁ ht => .bind .ident_item fun name _ hn => .pure ?_) (.asPattern h)
  exact (ht.reads (ht.kind hc) nofun).upto hn rfl captured_subset (.pattern trivial)

theorem openPattern (h : ∀ c, ReadsPattern f c closed) : ReadsPattern f c (Parser.openPattern closed) := by
  refine .bind (.maybeStarPattern h) fun first c₁ hf => .ifAt (fun _ => ?_) (.pure hf)
  refine .bind (.commaTail_items (fun _ => .isAt <| .isAt <| .pure rfl) fun _ => .maybeStarPattern h) fun more _ hm => ?_
  exact .previous <| .pure <| (hf.append hm).close rfl (by simp) (.pattern trivial)

theorem patternTail {close : Kind} (h : ∀ c, ReadsPattern f c closed) {first : List Pattern}
    (hs : e.Reads f start (first.map .pattern) c) :
    Ends f c (fun x d => e.Gets f (.pattern x) d) (Parser.patternTail closed close start first) := by
  refine .bind (.commaTail_items (fun _ => .stays) fun _ => .maybeStarPattern h) fun more _ hm => ?_
  refine .bind .expect fun _ _ ⟨ht, _⟩ => .previous <| .pure ?_
  exact ((hs.append hm).move ht.moves).close rfl (by simp) (.pattern trivial)

theorem startsNumber {α : Type} {P : α → Cursor → Prop} {k : Bool → Parser α} (h : ∀ b, Ends f c P (k b)) :
    Ends f c P (Parser.startsNumber >>= k) := by
  have hs : Ends f c (fun _ d => d = c) Parser.startsNumber := by
    refine .peek ?_
    split <;> exact .pure rfl
  exact .bind hs <| by rintro b _ rfl; exact h b

-- A number with its sign, or a sum of two of them.
theorem numberPattern (h : b.Reads f) : ReadsExpr f c (Parser.numberPattern b) := by
  refine .here <| .accept (fun t c₁ ht hk => ?_) ?_
  all_goals refine .startsNumber fun _ => .ite (fun _ => .fail) fun _ => .bind (.atom h) fun number c₂ hn => ?_
  case' refine_1 =>
    have hv : c.Gets f (.expr (.unary (c.here.join number.span) .neg number)) c₂ :=
      (ht.reads hk nofun).opened.upto hn rfl (by simp) (.expr trivial)
  case' refine_2 => have hv := hn
  all_goals
    refine .peek ?_
    split
    case h_2 => exact .pure hv
    refine .bind .next fun _ c₃ h₃ => .peek ?_
    split
    case h_1 => exact .bind (.atom h) fun _ _ hi => .pure <| (hv.move h₃.moves).opened.upto hi rfl (by simp) (.expr trivial)
    case h_2 => exact .fail

theorem classPart (h : ∀ c, ReadsPattern f c closed) {s : ClassParts} (hs : e.Spans f s.parts c) :
    Ends f c (fun s d => e.Spans f s.parts d) (Parser.classPart closed s) := by
  refine .startsKeywordArg fun _ => .ite (fun _ => ?_) fun _ => .ite (fun _ => ?_) fun _ => .fail
  case refine_1 =>
    refine .bind .ident_item fun key c₁ hk => .bind .next fun _ c₂ ht => .bind (.asPattern h) fun p _ hp => .pure ?_
    have hk := hk.spans.append <| .behind ht.moves hp.spans
    simpa [ClassParts.parts] using hs.append hk
  case refine_2 =>
    refine .bind (.asPattern h) fun p _ hp => .pure <| (hs.append hp.spans).subset ?_
    simp [ClassParts.parts]

theorem namePattern (h : ∀ c, ReadsPattern f c closed) : ReadsPattern f c (Parser.namePattern closed) := by
  refine .bind .ident fun name c₁ hn => .isAt <| .isAt <| .ite (fun _ => ?_) fun _ => .pure ?_
  case refine_2 =>
    have hi : c.Gets f (.ident name) c₁ := (hn.start nofun).leaf rfl .ident
    exact hi.replace (.pattern trivial) rfl captured_subset
  have hx : c.Gets f (.expr (.name name.span name.text)) c₁ := (hn.start nofun).leaf rfl (.expr trivial)
  refine .bind (.many (P := Extends f fun e attr => .attr (e.span.join attr.span) e attr) fun c => ?_) fun attrs c₂ ha => ?_
  case refine_1 =>
    refine .after fun _ c₂ ht _ => .mono .ident_item fun i _ hi _ _ hx => ?_
    exact (hx.move ht.moves).upto hi rfl (by simp) (.expr trivial)
  have hx := ha.foldl hx
  refine .ifAccept (fun _ c₃ h₃ _ => ?_) (.pure <| hx.replace (.pattern trivial) rfl <| List.Subset.refl _)
  refine .bind (.foldItems_spans (fun _ _ => .classPart h) rfl) fun parts c₄ hp => ?_
  refine .bind .expect fun _ _ ⟨ht, _⟩ => .previous <| .pure ?_
  have hr := (hx.opened.move h₃.moves).append hp
  rw [hn.here] at hr
  exact (hr.move ht.moves).close rfl (List.Subset.refl _) (.pattern trivial)

theorem mappingPart (h : ∀ c, ReadsPattern f c closed) {s : MappingParts} (hs : e.Spans f s.parts c) :
    Ends f c (fun s d => e.Spans f s.parts d) (Parser.mappingPart closed s) := by
  refine .ifAccept (fun _ c₁ h₁ _ => ?_) <| .ite (fun _ => .fail) fun hr => .bind (h c) fun k c₁ hk => ?_
  case refine_1 =>
    refine .bind .ident_item fun name _ hn => .pure <| (hs.append <| .behind h₁.moves hn.spans).subset ?_
    simp [MappingParts.parts]
  split
  case h_1 z key =>
    refine .bind .expect fun _ c₂ ⟨ht, _⟩ => .bind (.asPattern h) fun p _ hp => .pure ?_
    have he := hk.spans.parts.append <| .behind ht.moves hp.spans
    refine (hs.append he).subset ?_
    simp [MappingParts.parts]
  case h_2 => exact .failAt

theorem mappingPattern (h : ∀ c, ReadsPattern f c closed) : ReadsPattern f c (Parser.mappingPattern closed) := by
  refine .bind .expect fun _ c₁ ⟨h₁, hk⟩ => .bind (.foldItems_spans (fun _ _ => .mappingPart h) rfl) fun parts c₂ hp => ?_
  refine .bind .expect fun _ _ ⟨ht, _⟩ => .previous <| .pure ?_
  exact (((h₁.reads hk nofun).append hp).move ht.moves).close rfl (List.Subset.refl _) (.pattern (by simp [Pattern.WellFormed]))

theorem parenPattern (h : ∀ c, ReadsPattern f c closed) (hs : e.Reads f start [] c) :
    Ends f c (fun x d => e.Gets f (.pattern x) d) (Parser.parenPattern closed start) := by
  refine .ifAccept (fun _ _ ht _ => .previous <| .pure <| (hs.move ht.moves).close rfl (by simp) (.pattern trivial)) ?_
  refine .bind (.maybeStarPattern h) fun first c₁ hf => .isAt <| .ite (fun _ => ?_) fun _ => ?_
  case refine_1 => exact .bind .next fun _ _ ht => .pure <| (hs.behind hf).move ht.moves
  case refine_2 => exact .patternTail h <| hs.append hf.spans

theorem bracketPattern (h : ∀ c, ReadsPattern f c closed) (hs : e.Reads f start [] c) :
    Ends f c (fun x d => e.Gets f (.pattern x) d) (Parser.bracketPattern closed start) := by
  refine .ifAt (fun _ => .patternTail h hs) <| .bind (.maybeStarPattern h) fun first c₁ hf => ?_
  exact .patternTail h <| hs.append hf.spans

theorem closedForm (hb : b.Reads f) (h : ∀ c, ReadsPattern f c closed) : ReadsPattern f c (Parser.closedForm b closed) := by
  have hv : ∀ {e d}, c.Gets f (.expr e) d → c.Gets f (.pattern (valuePattern e)) d :=
    fun he => he.replace (.pattern trivial) rfl <| List.Subset.refl _
  refine .here <| .peek ?_
  split
  case h_1 | h_2 | h_3 | h_4 | h_5  => exact .bind (.numberPattern hb) fun _ _ he => .pure <| hv he
  case h_6 | h_7 | h_8 | h_9 | h_10 => exact .bind (.atom hb) fun _ _ he => .pure <| hv he
  case h_11     => exact .namePattern h
  case h_12 hk  => exact .bind .next fun _ _ ht => .parenPattern h (ht.reads (ht.kind hk) nofun).opened
  case h_13 hk  => exact .bind .next fun _ _ ht => .bracketPattern h (ht.reads (ht.kind hk) nofun).opened
  case h_14     => exact .mappingPattern h
  case h_15     => exact .fail

theorem closedPattern (h : b.Reads f) (depth : Nat) : ∀ {c}, ReadsPattern f c (Parser.closedPattern b depth) := by
  induction depth
  case zero => exact .fail
  case succ hi => exact .closedForm h fun _ => hi

end Ends
end PyVerify.Parser
