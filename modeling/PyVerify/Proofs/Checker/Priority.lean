import PyVerify.Proofs.Checker.Selection

namespace PyVerify

open List

namespace Excerpt

-- An error or a warning, unless it is a verdict or starts a violation.
def isNoteLine (line : String) : Bool :=
  !isBorder line && isNote line

-- The lines in front of the first violation, and those behind it.
def besides (lines : List String) : List String :=
  (unversioned lines).takeWhile (!opens ·) ++
    ((unversioned lines).dropWhile (!opens ·)).drop (firstViolation lines).length

def noteLines (lines : List String) : List String :=
  (besides lines).filter isNoteLine

-- What is shown of a violation, with its heading.
def violationBlock (violation : List String) : List String :=
  headed (violation.take 25) (violation.length - 25)

-- As many of the first lines as fit into a number of bytes.
structure Greedy (budget : Nat) (lines shown : List String) : Prop where
  isPrefix : shown <+: lines
  fits     : size shown ≤ budget
  longest  : ∀ more, more <+: lines → size more ≤ budget → more <+: shown

-- How the bytes that are left are used: the violation is shown as one block or not at all, and the notes
-- get what it leaves.
structure Shares (budget : Nat) (first candidates violation notes : List String) : Prop where
  block  : violation = if size (violationBlock first) ≤ budget then first.take 25 else []
  behind : Greedy (budget - size (headed violation (first.length - violation.length))) (candidates.take 10) notes

variable {e : Excerpt} {phase : Phase} {line : String}
  {lines ns first candidates violation notes : List String} {budget limit total : Nat}

@[simp]
theorem size_cons : size (line :: lines) = line.utf8ByteSize + 1 + size lines := rfl

theorem greedy_fitting (budget : Nat) (lines : List String) : Greedy budget lines (fitting budget lines) := by
  refine ⟨fitting_isPrefix budget lines, size_fitting_le budget lines, ?_⟩
  fun_induction fitting budget lines
  case case1 => exact fun _ hp _ => hp
  case case2 budget line rest _ h hi =>
    intro more hp hs
    cases more
    case nil => exact nil_prefix
    case cons l more =>
      obtain ⟨rfl, hm⟩ := cons_prefix_cons.mp hp
      rw [size_cons] at hs
      exact cons_prefix_cons.mpr ⟨rfl, hi more hm (by omega)⟩
  case case3 budget line rest _ h =>
    intro more hp hs
    cases more
    case nil => exact nil_prefix
    case cons l more =>
      obtain ⟨rfl, hm⟩ := cons_prefix_cons.mp hp
      rw [size_cons] at hs
      omega

theorem Greedy.ne_nil_iff (h : Greedy budget lines notes) :
    notes ≠ [] ↔ ∃ line ∈ lines.head?, line.utf8ByteSize + 1 ≤ budget := by
  constructor
  case mp =>
    intro hn
    obtain ⟨line, rest, rfl⟩ := exists_cons_of_ne_nil hn
    obtain ⟨behind, rfl⟩ := h.isPrefix
    have hs := h.fits
    rw [size_cons] at hs
    exact ⟨line, rfl, by omega⟩
  case mpr =>
    rintro ⟨line, hl, hs⟩ rfl
    obtain ⟨rest, rfl⟩ := head?_eq_some_iff.mp hl
    have hp := h.longest [line] ⟨rest, rfl⟩ (by simpa [size] using hs)
    exact cons_ne_nil _ _ (prefix_nil.mp hp)

-- The notes are shown without the violation if it does not fit and the first of them does.
theorem Shares.inverted_iff (h : Shares budget first candidates violation notes) :
    first ≠ [] ∧ violation = [] ∧ notes ≠ [] ↔
      first ≠ [] ∧ budget < size (violationBlock first) ∧
        ∃ note ∈ candidates.head?, note.utf8ByteSize + 1 ≤ budget := by
  refine and_congr_right fun hf => ?_
  have hv : violation = [] ↔ budget < size (violationBlock first) := by
    rw [h.block]
    split
    case isTrue hs   => simp [hf, hs]
    case isFalse hs  => simp [Nat.lt_of_not_le hs]
  have hn : violation = [] → (notes ≠ [] ↔ ∃ note ∈ candidates.head?, note.utf8ByteSize + 1 ≤ budget) := by
    rintro rfl
    simpa [headed, size, head?_take] using h.behind.ne_nil_iff
  rw [←hv]
  exact and_congr_right hn

-- The first candidates are taken over as notes.
def Notes (e : Excerpt) (candidates : List String) : Prop :=
  e.notes = candidates.take noteLimit

theorem Notes.addViolation (h : e.Notes ns) (line : String) : (e.addViolation line).Notes ns := by
  unfold Excerpt.addViolation
  split <;> exact h

theorem length_addViolation (e : Excerpt) (line : String) :
    (e.addViolation line).violation.length = min (e.violation.length + 1) (max violationLimit e.violation.length) := by
  unfold addViolation
  split
  · simp
    omega
  · dsimp only
    omega

theorem violation_addNote (e : Excerpt) (line : String) : (e.addNote line).violation = e.violation := by
  unfold addNote
  split <;> rfl

theorem isNoteLine_border (h : isBorder line = true) : isNoteLine line = false := by
  simp [isNoteLine, h]

theorem toLower_eq_colon {c : Char} (h : c.toLower = ':') : c = ':' := by
  unfold Char.toLower at h
  split at h
  case isTrue hc =>
    have hv := congrArg Char.val h
    simp at hv
    grind
  case isFalse => exact h

theorem isNoteLine_blank (h : isBlankLine line = true) : isNoteLine line = false := by
  have hc : ':' ∉ line.toList.map Char.toLower := by
    rintro hm
    obtain ⟨c, hm, hl⟩ := mem_map.mp hm
    have hb : ∀ c ∈ line.toList, Text.isBlank c = true := by simpa [isBlankLine, Text.isBlankText] using h
    exact absurd (hb ':' (toLower_eq_colon hl ▸ hm)) (by decide)
  have hm : ∀ m : String, ':' ∈ m.toList → marks m (String.ofList (line.toList.map Char.toLower)) = false := by
    refine fun m hm => Bool.eq_false_iff.mpr fun hs => hc ?_
    simpa using (marks_iff.mp hs).mem hm
  have hn : isNote line = false := Bool.or_eq_false_iff.mpr ⟨hm "error:" (by decide), hm "warning:" (by decide)⟩
  rw [isNoteLine, hn, Bool.and_false]

theorem Notes.addNote (h : e.Notes ns) (hn : isBorder line = false) :
    (e.addNote line).Notes (ns ++ [line].filter isNoteLine) := by
  have he : e.notes = ns.take noteLimit := h
  have hl : e.notes.length = min noteLimit ns.length := by rw [he, length_take]
  have hi : isNoteLine line = isNote line := by simp [isNoteLine, hn]
  unfold Excerpt.addNote
  cases hk : isNote line
  case false => simpa [hi, hk] using h
  case true =>
    rw [filter_singleton, hi, hk, cond_true, Bool.true_and, Notes]
    split
    case isTrue ht =>
      have hs : ns.length < noteLimit := by
        rw [decide_eq_true_eq] at ht
        omega
      rw [take_of_length_le (by simp; omega), he, take_of_length_le (by omega)]
    case isFalse hf =>
      have hs : noteLimit ≤ ns.length := by
        rw [decide_eq_true_eq] at hf
        omega
      rw [take_append_of_le_length hs, he]

theorem Notes.after (h : e.Notes ns) :
    (e.addAll .after lines).Notes (ns ++ (unversioned lines).filter isNoteLine) := by
  induction lines generalizing e ns
  case nil => simpa [unversioned, addAll] using h
  case cons line rest hi =>
    rw [addAll_cons]
    obtain hk | ⟨hn, hk | hk | hk⟩ := line_cases line
    · rw [add_version hk, unversioned_version hk]
      exact hi h
    · rw [add_verdict hn hk, if_neg (by decide), unversioned_cons hn,
        filter_cons_of_neg (by simp [isNoteLine_border (isBorder_of_isVerdict hk)])]
      exact hi h
    · rw [add_opening hn hk, unversioned_cons hn,
        filter_cons_of_neg (by simp [isNoteLine_border (isBorder_of_opens hk)])]
      exact hi h
    · rw [add_other hn hk, if_neg (by decide), unversioned_cons hn, ←singleton_append, filter_append, ←append_assoc]
      dsimp only
      exact hi (h.addNote hk)

-- What ends a violation is no note, and all lines behind it are lines beside it.
theorem Notes.inside (h : e.Notes ns) (hv : 1 < e.violation.length) :
    (e.addAll .inside lines).Notes
      (ns ++ ((unversioned lines).dropWhile fun l => !isBorder l && !isBlankLine l).filter isNoteLine) := by
  induction lines generalizing e
  case nil => simpa [unversioned, addAll] using h
  case cons line rest hi =>
    rw [addAll_cons]
    obtain hk | ⟨hn, hk | hk | hk⟩ := line_cases line
    · rw [add_version hk, unversioned_version hk]
      exact hi h hv
    · have hb := isBorder_of_isVerdict hk
      rw [add_verdict hn hk, if_pos rfl, unversioned_cons hn, dropWhile_cons_of_neg (by simp [hb]),
        filter_cons_of_neg (by simp [isNoteLine_border hb])]
      exact Notes.after h
    · have hb := isBorder_of_opens hk
      rw [add_opening hn hk, if_neg (by decide), unversioned_cons hn, dropWhile_cons_of_neg (by simp [hb]),
        filter_cons_of_neg (by simp [isNoteLine_border hb])]
      exact h.after
    · rw [add_other hn hk, unversioned_cons hn, if_pos rfl]
      cases hb : isBlankLine line
      case true =>
        rw [dropWhile_cons_of_neg (by simp [hb]), filter_cons_of_neg (by simp [isNoteLine_blank hb]),
          if_pos (by simp [hv])]
        exact h.after
      case false =>
        rw [dropWhile_cons_of_pos (by simp [hb, hk]), if_neg (by simp)]
        exact hi (h.addViolation line) (by rw [length_addViolation]; omega)

theorem drop_length_violationBody :
    (line :: lines).drop (violationBody (line :: lines)).length =
      if isBorder line then line :: lines else lines.dropWhile fun l => !isBorder l && !isBlankLine l := by
  rw [violationBody]
  split
  case isTrue => rfl
  case isFalse =>
    let inner (l : String) : Bool := !isBorder l && !isBlankLine l
    have hd : (lines.takeWhile inner ++ lines.dropWhile inner).drop (lines.takeWhile inner).length =
        lines.dropWhile inner := drop_left
    rwa [takeWhile_append_dropWhile] at hd

theorem Notes.behindFirst (h : e.Notes ns) (hv : e.violation.length = 1) :
    (e.addAll .inside lines).Notes
      (ns ++ ((unversioned lines).drop (violationBody (unversioned lines)).length).filter isNoteLine) := by
  induction lines generalizing e
  case nil => simpa [violationBody, unversioned, addAll] using h
  case cons line rest hi =>
    rw [addAll_cons]
    obtain hk | ⟨hn, hk | hk | hk⟩ := line_cases line
    · rw [add_version hk, unversioned_version hk]
      exact hi h hv
    · have hb := isBorder_of_isVerdict hk
      rw [add_verdict hn hk, if_pos rfl, unversioned_cons hn, drop_length_violationBody, if_pos hb,
        filter_cons_of_neg (by simp [isNoteLine_border hb])]
      exact Notes.after h
    · have hb := isBorder_of_opens hk
      rw [add_opening hn hk, if_neg (by decide), unversioned_cons hn, drop_length_violationBody, if_pos hb,
        filter_cons_of_neg (by simp [isNoteLine_border hb])]
      exact h.after
    · rw [add_other hn hk, unversioned_cons hn, drop_length_violationBody, if_pos rfl, if_neg (by simp [hv]),
        if_neg (by simp [hk])]
      exact (h.addViolation line).inside (by rw [length_addViolation, hv]; decide)

theorem besides_version (h : isVersion line = true) : besides (line :: lines) = besides lines := by
  rw [besides, unversioned_version h, firstViolation_version h]
  rfl

theorem besides_opening (hn : isVersion line = false) (h : opens line = true) :
    besides (line :: lines) = (unversioned lines).drop (violationBody (unversioned lines)).length := by
  rw [besides, unversioned_cons hn, firstViolation_opening hn h, takeWhile_cons_of_neg (by simp [h]),
    dropWhile_cons_of_neg (by simp [h])]
  rfl

theorem besides_cons (hn : isVersion line = false) (h : opens line = false) :
    besides (line :: lines) = line :: besides lines := by
  rw [besides, unversioned_cons hn, firstViolation_cons hn h, takeWhile_cons_of_pos (by simp [h]),
    dropWhile_cons_of_pos (by simp [h])]
  rfl

theorem Notes.before (h : e.Notes ns) (hv : e.violation = []) :
    (e.addAll .before lines).Notes (ns ++ noteLines lines) := by
  induction lines generalizing e ns
  case nil => simpa [noteLines, besides, unversioned, addAll] using h
  case cons line rest hi =>
    rw [addAll_cons, noteLines]
    obtain hk | ⟨hn, hk | hk | hk⟩ := line_cases line
    · rw [add_version hk, besides_version hk]
      exact hi h hv
    · rw [add_verdict hn hk, if_neg (by decide), besides_cons hn (by simp [opens, hk]),
        filter_cons_of_neg (by simp [isNoteLine_border (isBorder_of_isVerdict hk)])]
      exact hi h hv
    · rw [add_opening hn hk, if_pos rfl, besides_opening hn hk]
      exact (h.addViolation line).behindFirst (by rw [length_addViolation, hv]; decide)
    · have ho : opens line = false := by
        simp only [opens, isBorder] at *
        grind
      rw [add_other hn hk, if_neg (by decide), besides_cons hn ho, ←singleton_append, filter_append, ←append_assoc]
      dsimp only
      exact hi (h.addNote hk) (by rw [violation_addNote, hv])

-- The notes of an excerpt are the first errors and warnings beside the first violation.
theorem notes_ofLines (lines : List String) : (ofLines lines).Notes (noteLines lines) :=
  Notes.before (show empty.Notes [] from rfl) rfl

theorem utf8ByteSize_shownViolation :
    (e.shownViolation limit total).utf8ByteSize = size (headed (e.shownLines limit total) e.omitted) := by
  unfold shownViolation shownLines
  split
  case isTrue =>
    rw [violationText_eq, utf8ByteSize_paragraph]
    rfl
  case isFalse => rfl

theorem Holds.utf8ByteSize_violationText (h : e.Holds first) :
    e.violationText.utf8ByteSize = size (violationBlock first) := by
  have he : e.violationLines = headed e.violation e.omitted := rfl
  rw [violationText_eq, utf8ByteSize_paragraph, he, h.violation, h.omitted]
  rfl

theorem Holds.shares (h : e.Holds first) (hn : e.Notes candidates) :
    Shares (e.room limit total) first candidates (e.shownLines limit total) (e.shownNotes limit total) where
  block := by
    rw [shownLines, h.utf8ByteSize_violationText, h.violation]
    rfl
  behind := by
    have he : e.notes = candidates.take noteLimit := hn
    rw [shownNotes, utf8ByteSize_shownViolation, h.headed_eq, he]
    exact greedy_fitting _ _

end Excerpt

theorem truncate_shares (output : String) (limit : Nat) :
    output.utf8ByteSize ≤ limit ∧ truncate output limit = output ∨
    limit < output.utf8ByteSize ∧ ∃ violation notes,
      let first := Excerpt.firstViolation (outputLines output)
      let candidates := Excerpt.noteLines (outputLines output)
      let budget := limit - requiredSize output
      truncate output limit =
        Excerpt.paragraph (versionLines output ++ Excerpt.headed violation (first.length - violation.length) ++
          Excerpt.separated notes ++ verdictLines output) ++ Excerpt.footer output.utf8ByteSize ∧
      Excerpt.Shares budget first candidates violation notes ∧
      (first ≠ [] ∧ violation = [] ∧ notes ≠ [] ↔
        first ≠ [] ∧ budget < Excerpt.size (Excerpt.violationBlock first) ∧
          ∃ note ∈ candidates.head?, note.utf8ByteSize + 1 ≤ budget) := by
  by_cases long : limit < output.utf8ByteSize
  case neg => exact .inl ⟨by omega, if_pos (by omega)⟩
  case pos =>
    let e := Excerpt.ofLines (outputLines output)
    have ht : truncate output limit = e.render limit output.utf8ByteSize := if_neg (by omega)
    have hh : e.Holds _ := Excerpt.holds_ofLines (outputLines output)
    have hvs : e.versions = versionLines output := Excerpt.versions_ofLines _
    have hvd : e.verdicts = verdictLines output := Excerpt.verdicts_ofLines _
    have hb : e.room limit output.utf8ByteSize = limit - requiredSize output := by
      rw [Excerpt.room, hvs, hvd, requiredSize]
    have hs := hb ▸ hh.shares (Excerpt.notes_ofLines (outputLines output))
    refine .inr ⟨long, _, _, ?_, hs, hs.inverted_iff⟩
    rw [ht, Excerpt.render_eq, Excerpt.renderedLines_eq, hh.headed_eq, hvs, hvd]

-- The violation would need more than the 34 bytes that are left, and the warning does not.
def crowded : String :=
  "warning: no body for f\nViolated property:\n  file main.c line 7 function main\n  arithmetic overflow on add\n\n" ++
    "VERIFICATION FAILED\n"

theorem crowded_inverted :
    Excerpt.firstViolation (outputLines crowded) =
        ["Violated property:", "  file main.c line 7 function main", "  arithmetic overflow on add"] ∧
      "warning: no body for f" ∈ pieces (truncate crowded 100) ∧
      ∀ line ∈ Excerpt.firstViolation (outputLines crowded), line ∉ pieces (truncate crowded 100) := by
  decide +kernel

end PyVerify
