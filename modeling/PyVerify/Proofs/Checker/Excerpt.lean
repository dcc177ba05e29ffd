import Mathlib.Logic.Basic
import PyVerify.Checker.Excerpt
import PyVerify.Proofs.Text.Line

namespace PyVerify

open Text

-- What a text says, whatever else it says.
def verdictMarkers : List String := [successMarker, failureMarker]

variable {m line text : String} {lines : List String}

theorem marks_iff : marks m text ↔ Occurs m.toList text.toList := contains_iff

theorem oneLine_of_mem_verdictMarkers (h : m ∈ verdictMarkers) : OneLine m.toList := by
  have h' : ∀ m ∈ verdictMarkers, m.toList ≠ [] ∧ '\n' ∉ m.toList ∧ '\r' ∉ m.toList := by decide
  obtain ⟨hn, hf, hr⟩ := h' m h
  exact ⟨hn, hf, hr⟩

-- Texts without this letter, such as the headings of an excerpt, have nothing to do with verdicts.
theorem not_marks_of_not_mem (h : m ∈ verdictMarkers) (hf : 'F' ∉ text.toList) : ¬marks m text := by
  have h' : ∀ m ∈ verdictMarkers, 'F' ∈ m.toList := by decide
  exact fun hm => hf <| (marks_iff.mp hm).mem (h' m h)

theorem not_mem_numbered {before after : String} {c : Char} (n : Nat) (hc : ¬c.isDigit)
    (hb : c ∉ before.toList) (ha : c ∉ after.toList) : c ∉ (before ++ n.repr ++ after).toList := by
  simp only [String.toList_append, List.mem_append, not_or]
  exact ⟨⟨hb, not_mem_repr hc n⟩, ha⟩

namespace Excerpt

@[simp]
theorem paragraph_nil : paragraph [] = "" := rfl

@[simp]
theorem paragraph_cons : paragraph (line :: lines) = line ++ "\n" ++ paragraph lines := by
  simp [paragraph]

@[simp]
theorem paragraph_append (l₁ l₂ : List String) : paragraph (l₁ ++ l₂) = paragraph l₁ ++ paragraph l₂ := by
  simp [paragraph]

theorem toList_paragraph (lines : List String) :
    (paragraph lines).toList = unlines (lines.map String.toList) := by
  simp [paragraph, unlines, String.toList_join, List.flatMap_map]

theorem marks_paragraph_append_iff (o : OneLine m.toList) :
    marks m (paragraph lines ++ text) ↔ (∃ l ∈ lines, marks m l) ∨ marks m text := by
  simp [marks_iff, toList_paragraph, o.occurs_unlines_append_iff, exists_exists_and_eq_and]

-- The lines that are taken over: versions and verdicts, all of them and in order, and some others.
def isVersion (line : String) : Bool :=
  marks versionMarker line

def isVerdict (line : String) : Bool :=
  marks successMarker line || marks failureMarker line

def others (e : Excerpt) : List String :=
  e.violation ++ e.notes

theorem versions_add (e : Excerpt) (phase : Phase) (line : String) :
    (e.add phase line).1.versions = e.versions ++ [line].filter isVersion := by
  unfold add addViolation addNote
  grind [isVersion]

theorem verdicts_add (e : Excerpt) (phase : Phase) (line : String) :
    (e.add phase line).1.verdicts =
      e.verdicts ++ [line].filter fun l => !isVersion l && isVerdict l := by
  unfold add addViolation addNote
  grind [isVersion, isVerdict]

theorem others_add_subset (e : Excerpt) (phase : Phase) (line : String) :
    (e.add phase line).1.others ⊆ e.others ++ [line] := by
  unfold add addViolation addNote others
  grind

theorem addAll_cons (e : Excerpt) (phase : Phase) (line : String) (rest : List String) :
    e.addAll phase (line :: rest) = (e.add phase line).1.addAll (e.add phase line).2 rest := rfl

-- Lines that are chosen one by one have been chosen from all lines.
theorem addAll_filter {f : Excerpt → List String} {p : String → Bool}
    (h : ∀ e phase line, f (e.add phase line).1 = f e ++ [line].filter p) (e : Excerpt) (phase : Phase)
    (lines : List String) : f (e.addAll phase lines) = f e ++ lines.filter p := by
  induction lines generalizing e phase
  case nil => simp [addAll]
  case cons line rest hi =>
    rw [addAll_cons, hi, h, List.append_assoc, ←List.filter_append]
    rfl

theorem others_addAll_subset (e : Excerpt) (phase : Phase) (lines : List String) :
    (e.addAll phase lines).others ⊆ e.others ++ lines := by
  induction lines generalizing e phase
  case nil => simp [addAll]
  case cons line rest hi =>
    have hs := others_add_subset e phase line
    rw [addAll_cons]
    intro l hl
    grind [hi _ _ hl]

theorem versions_ofLines (lines : List String) : (ofLines lines).versions = lines.filter isVersion :=
  addAll_filter versions_add empty .before lines

theorem verdicts_ofLines (lines : List String) :
    (ofLines lines).verdicts = lines.filter fun l => !isVersion l && isVerdict l :=
  addAll_filter verdicts_add empty .before lines

theorem others_ofLines_subset (lines : List String) : (ofLines lines).others ⊆ lines :=
  others_addAll_subset empty .before lines

-- The lines of the violation with their heading, and those of the whole excerpt.
def violationLines (e : Excerpt) : List String :=
  if e.violation.isEmpty then []
  else
    "" :: "Violation details:" :: e.violation ++
      (if e.omitted = 0 then [] else [s!"... [{e.omitted} more violation lines]"])

-- Lines with an empty one before them, if there are any.
def separated (lines : List String) : List String :=
  if lines.isEmpty then [] else "" :: lines

def renderedLines (e : Excerpt) (limit total : Nat) : List String :=
  let budget := limit - (size e.versions + size e.verdicts + (footer total).utf8ByteSize)
  let violation := if (paragraph e.violationLines).utf8ByteSize ≤ budget then e.violationLines else []
  let notes := fitting (budget - (paragraph violation).utf8ByteSize) e.notes
  e.versions ++ violation ++ separated notes ++ e.verdicts

theorem violationText_eq (e : Excerpt) : e.violationText = paragraph e.violationLines := by
  unfold violationText violationLines
  split
  case isTrue   => rfl
  case isFalse  => split <;> simp [←String.toList_inj, toString]

theorem render_eq (e : Excerpt) (limit total : Nat) :
    e.render limit total = paragraph (e.renderedLines limit total) ++ footer total := by
  simp only [render, renderedLines, separated, violationText_eq, paragraph_append, apply_ite paragraph]
  simp

theorem fitting_isPrefix (budget : Nat) (lines : List String) : fitting budget lines <+: lines := by
  fun_induction fitting budget lines
  case case1 => exact List.prefix_rfl
  case case2 hi => exact List.cons_prefix_cons.mpr ⟨rfl, hi⟩
  case case3 => exact List.nil_prefix

theorem not_mem_footer (total : Nat) : 'F' ∉ (footer total).toList :=
  not_mem_numbered total (by decide) (by decide) (by decide)

theorem mem_violationLines {e : Excerpt} (h : line ∈ e.violationLines) :
    line ∈ e.violation ∨ 'F' ∉ line.toList := by
  unfold violationLines at h
  split at h
  case isTrue => cases h
  case isFalse =>
    simp only [List.cons_append, List.mem_cons, List.mem_append] at h
    obtain rfl | rfl | h | h := h
    · exact .inr (by decide)
    · exact .inr (by decide)
    · exact .inl h
    · split at h
      case isTrue => cases h
      case isFalse =>
        rw [List.mem_singleton.mp h]
        exact .inr <| not_mem_numbered e.omitted (by decide) (by decide) (by decide)

theorem mem_separated (h : line ∈ separated lines) : line = "" ∨ line ∈ lines := by
  unfold separated at h
  split at h
  case isTrue   => cases h
  case isFalse  => exact List.mem_cons.mp h

theorem mem_renderedLines {e : Excerpt} {limit total : Nat} (h : line ∈ e.renderedLines limit total) :
    line ∈ e.versions ∨ line ∈ e.verdicts ∨ line ∈ e.others ∨ 'F' ∉ line.toList := by
  simp only [renderedLines, List.mem_append] at h
  obtain ((h | h) | h) | h := h
  · exact .inl h
  · split at h
    case isTrue   => exact .inr <| .inr <| (mem_violationLines h).imp_left (List.mem_append_left _)
    case isFalse  => cases h
  · obtain rfl | h := mem_separated h
    · exact .inr <| .inr <| .inr <| by decide
    · exact .inr <| .inr <| .inl <| List.mem_append_right _ ((fitting_isPrefix _ _).subset h)
  · exact .inr <| .inl h

theorem marks_render_iff (h : m ∈ verdictMarkers) (e : Excerpt) (limit total : Nat) :
    marks m (e.render limit total) ↔ ∃ l ∈ e.renderedLines limit total, marks m l := by
  have hf := not_marks_of_not_mem h (not_mem_footer total)
  rw [render_eq, marks_paragraph_append_iff (oneLine_of_mem_verdictMarkers h)]
  simp [hf]

theorem exists_marks_renderedLines_iff (h : m ∈ verdictMarkers) (lines : List String) (limit total : Nat) :
    (∃ l ∈ (ofLines lines).renderedLines limit total, marks m l) ↔ ∃ l ∈ lines, marks m l := by
  constructor
  case mp =>
    rintro ⟨l, hl, hm⟩
    refine ⟨l, ?_, hm⟩
    obtain hl | hl | hl | hl := mem_renderedLines hl
    · exact (List.mem_filter.mp <| versions_ofLines lines ▸ hl).left
    · exact (List.mem_filter.mp <| verdicts_ofLines lines ▸ hl).left
    · exact others_ofLines_subset lines hl
    · exact absurd hm (not_marks_of_not_mem h hl)
  case mpr =>
    rintro ⟨l, hl, hm⟩
    have hi : isVerdict l := by
      obtain rfl | rfl : m = successMarker ∨ m = failureMarker := by simpa [verdictMarkers] using h
      all_goals simp [isVerdict, hm]
    refine ⟨l, ?_, hm⟩
    simp only [renderedLines, List.mem_append, versions_ofLines, verdicts_ofLines, List.mem_filter]
    cases hs : isVersion l
    case false  => simp [hl, hi]
    case true   => simp [hl]

end Excerpt

-- Cutting output down neither hides a verdict nor makes one up.
theorem marks_truncate_iff (h : m ∈ verdictMarkers) (output : String) (limit : Nat) :
    marks m (truncate output limit) ↔ marks m output := by
  unfold truncate
  split
  case isTrue => rfl
  case isFalse =>
    rw [Excerpt.marks_render_iff h, Excerpt.exists_marks_renderedLines_iff h, marks_iff,
      ←(oneLine_of_mem_verdictMarkers h).occurs_lines_iff]
    simp [marks_iff, exists_exists_and_eq_and]

end PyVerify
