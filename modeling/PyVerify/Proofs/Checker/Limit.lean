import PyVerify.Proofs.Checker.Excerpt

namespace PyVerify

namespace Excerpt

variable {e : Excerpt} {limit total : Nat}

@[simp]
theorem utf8ByteSize_newline : "\n".utf8ByteSize = 1 := rfl

theorem utf8ByteSize_paragraph (lines : List String) : (paragraph lines).utf8ByteSize = size lines := by
  induction lines
  case nil => rfl
  case cons line lines hi => simp [hi, size]

theorem size_fitting_le (budget : Nat) (lines : List String) : size (fitting budget lines) ≤ budget := by
  fun_induction fitting budget lines
  case case1 => exact Nat.zero_le _
  case case2 line rest _ h hi =>
    change line.utf8ByteSize + 1 + size (fitting _ rest) ≤ _
    omega
  case case3 => exact Nat.zero_le _

-- What is left of the limit for the violation and the notes,
def room (e : Excerpt) (limit total : Nat) : Nat :=
  limit - (size e.versions + size e.verdicts + (footer total).utf8ByteSize)

-- the violation if it is shown,
def shownViolation (e : Excerpt) (limit total : Nat) : String :=
  if e.violationText.utf8ByteSize ≤ e.room limit total then e.violationText else ""

-- and the notes that are shown.
def shownNotes (e : Excerpt) (limit total : Nat) : List String :=
  fitting (e.room limit total - (e.shownViolation limit total).utf8ByteSize) e.notes

-- The notes take up all that is left, and the empty line in front of them comes on top of it.
def Brimful (e : Excerpt) (limit total : Nat) : Prop :=
  e.shownNotes limit total ≠ [] ∧
    (e.shownViolation limit total).utf8ByteSize + size (e.shownNotes limit total) = e.room limit total

theorem shown_le_room :
    (e.shownViolation limit total).utf8ByteSize + size (e.shownNotes limit total) ≤ e.room limit total := by
  have hv : (e.shownViolation limit total).utf8ByteSize ≤ e.room limit total := by
    unfold shownViolation
    split
    case isTrue h => exact h
    case isFalse => exact Nat.zero_le _
  have hn : size (e.shownNotes limit total) ≤ _ := size_fitting_le _ e.notes
  omega

theorem utf8ByteSize_render :
    (e.render limit total).utf8ByteSize =
      size e.versions + size e.verdicts + (footer total).utf8ByteSize +
        ((e.shownViolation limit total).utf8ByteSize + size (e.shownNotes limit total)) +
        (if e.shownNotes limit total = [] then 0 else 1) := by
  have he : e.render limit total =
      paragraph e.versions ++ e.shownViolation limit total ++
        (if (e.shownNotes limit total).isEmpty then "" else "\n" ++ paragraph (e.shownNotes limit total)) ++
        paragraph e.verdicts ++ footer total := rfl
  rw [he]
  by_cases hn : e.shownNotes limit total = []
  case pos =>
    simp only [hn, List.isEmpty_nil, if_true, String.utf8ByteSize_append, utf8ByteSize_paragraph]
    simp [size]
    omega
  case neg =>
    simp only [List.isEmpty_eq_false_iff.mpr hn, Bool.false_eq_true, if_false, String.utf8ByteSize_append,
      utf8ByteSize_paragraph, if_neg hn, utf8ByteSize_newline]
    omega

theorem limit_lt_render_iff
    (fits : size e.versions + size e.verdicts + (footer total).utf8ByteSize ≤ limit) :
    (e.render limit total).utf8ByteSize ≤ limit + 1 ∧
      (limit < (e.render limit total).utf8ByteSize ↔ e.Brimful limit total) := by
  have hs : (e.shownViolation limit total).utf8ByteSize + size (e.shownNotes limit total) ≤ e.room limit total :=
    shown_le_room
  have hr : e.room limit total = limit - (size e.versions + size e.verdicts + (footer total).utf8ByteSize) := rfl
  rw [utf8ByteSize_render, Brimful]
  by_cases hn : e.shownNotes limit total = []
  case pos =>
    simp only [hn, if_true, ne_eq, not_true_eq_false, false_and, iff_false] at hs ⊢
    omega
  case neg =>
    simp only [hn, if_false, ne_eq, not_false_eq_true, true_and]
    omega

end Excerpt

-- The lines of some output.
def outputLines (output : String) : List String :=
  (Text.lines output.toList).map String.ofList

def versionLines (output : String) : List String :=
  (outputLines output).filter Excerpt.isVersion

-- The verdicts, but for those that are given in the line of a version.
def verdictLines (output : String) : List String :=
  (outputLines output).filter fun line => !Excerpt.isVersion line && Excerpt.isVerdict line

-- The bytes of what is written in any case: versions, verdicts and the footer.
def requiredSize (output : String) : Nat :=
  Excerpt.size (versionLines output) + Excerpt.size (verdictLines output) +
    (Excerpt.footer output.utf8ByteSize).utf8ByteSize

-- Where there is room for what is written in any case, the limit is exceeded by one byte at most, and
-- just by outputs whose notes take up all that is left.
theorem size_truncate_le {output : String} {limit : Nat} (fits : requiredSize output ≤ limit) :
    (truncate output limit).utf8ByteSize ≤ limit + 1 ∧
    (limit < (truncate output limit).utf8ByteSize ↔
      limit < output.utf8ByteSize ∧
        (Excerpt.ofLines (outputLines output)).Brimful limit output.utf8ByteSize) := by
  unfold truncate
  split
  case isTrue h => exact ⟨by omega, iff_of_false (by omega) (by omega)⟩
  case isFalse h =>
    rw [requiredSize, versionLines, verdictLines, ←Excerpt.versions_ofLines, ←Excerpt.verdicts_ofLines] at fits
    obtain ⟨hl, hb⟩ := Excerpt.limit_lt_render_iff fits
    exact ⟨hl, hb.trans ⟨fun hb => ⟨by omega, hb⟩, And.right⟩⟩

-- The error takes up what the verdict and the footer leave of 82 bytes.
def snug : String :=
  "error: overflow\nParsing main.c\nGenerating GOTO program\nStarting symbolic execution\nVERIFICATION FAILED\n"

theorem snug_required : requiredSize snug ≤ 82 := by
  have hs : snug.toList = _ := String.toList_ofList
  rw [requiredSize, versionLines, verdictLines, outputLines, hs]
  decide +kernel

theorem snug_truncated : (truncate snug 82).utf8ByteSize = 83 := by
  have hs : snug.toList = _ := String.toList_ofList
  rw [truncate, hs]
  decide +kernel

theorem snug_size :
    requiredSize snug ≤ 82 ∧ (truncate snug 82).utf8ByteSize = 83 ∧
      (Excerpt.ofLines (outputLines snug)).Brimful 82 snug.utf8ByteSize := by
  have hl : 82 < (truncate snug 82).utf8ByteSize := snug_truncated ▸ Nat.lt_succ_self 82
  exact ⟨snug_required, snug_truncated, ((size_truncate_le snug_required).right.mp hl).right⟩

theorem snug_exceeds_limit : requiredSize snug ≤ 82 ∧ ¬(truncate snug 82).utf8ByteSize ≤ 82 :=
  ⟨snug_required, by simp [snug_truncated]⟩

end PyVerify
