import Mathlib.Data.List.Perm.Subperm
import PyVerify.Proofs.Checker.Limit
import PyVerify.Proofs.Text.Line

namespace PyVerify

open List

namespace Excerpt

-- What ends a violation or starts one.
def isBorder (line : String) : Bool :=
  isVerdict line || marks violationMarker line

-- A line that starts a violation.
def opens (line : String) : Bool :=
  !isVerdict line && marks violationMarker line

def isBlankLine (line : String) : Bool :=
  Text.isBlankText line.toList

-- The lines that go on with a violation. A blank line ends it, unless it comes right behind the line that
-- starts it.
def violationBody : List String → List String
  | [] => []
  | line :: rest =>
    if isBorder line then [] else line :: rest.takeWhile fun l => !isBorder l && !isBlankLine l

-- Versions may be anywhere and do not count as lines of a violation.
def unversioned (lines : List String) : List String :=
  lines.filter (!isVersion ·)

-- The first violation in some output.
def firstViolation (lines : List String) : List String :=
  match (unversioned lines).dropWhile (!opens ·) with
  | [] => []
  | line :: rest => line :: violationBody rest

variable {e : Excerpt} {phase : Phase} {line : String} {lines block : List String}

-- The first lines of a violation are taken over and the other ones are counted.
structure Holds (e : Excerpt) (block : List String) : Prop where
  violation : e.violation = block.take violationLimit
  omitted   : e.omitted = block.length - violationLimit

theorem Holds.addViolation (h : e.Holds block) (line : String) :
    (e.addViolation line).Holds (block ++ [line]) := by
  have hl : e.violation.length = min violationLimit block.length := by simp [h.violation]
  unfold Excerpt.addViolation
  split
  case isTrue hv =>
    have hb : block.length < violationLimit := by omega
    refine ⟨?_, ?_⟩
    · rw [h.violation, take_of_length_le (by omega), take_of_length_le (by simp; omega)]
    · simp [h.omitted]
      omega
  case isFalse hv =>
    refine ⟨?_, ?_⟩
    · rw [h.violation, take_append_of_le_length (by omega)]
    · simp [h.omitted]
      omega

theorem Holds.addNote (h : e.Holds block) (line : String) : (e.addNote line).Holds block := by
  unfold Excerpt.addNote
  split
  · exact ⟨h.violation, h.omitted⟩
  · exact h

-- There are four kinds of lines, and what each of them does to an excerpt.
theorem line_cases (line : String) :
    isVersion line = true ∨
      isVersion line = false ∧ (isVerdict line = true ∨ opens line = true ∨ isBorder line = false) := by
  simp only [opens, isBorder]
  grind

theorem add_version (h : isVersion line = true) :
    e.add phase line = ({ e with versions := e.versions ++ [line] }, phase) :=
  if_pos h

theorem add_verdict (hn : isVersion line = false) (h : isVerdict line = true) :
    e.add phase line =
      ({ e with verdicts := e.verdicts ++ [line] }, if phase = .inside then .after else phase) :=
  (if_neg (Bool.not_eq_true _ ▸ hn)).trans (if_pos h)

theorem add_opening (hn : isVersion line = false) (h : opens line = true) :
    e.add phase line = if phase = .before then (e.addViolation line, .inside) else (e, .after) := by
  simp only [opens, Bool.and_eq_true, Bool.not_eq_true', isVerdict] at h
  unfold add
  rw [isVersion] at hn
  simp only [hn, h.left, h.right, Bool.false_eq_true, if_false, if_true]

theorem add_other (hn : isVersion line = false) (h : isBorder line = false) :
    e.add phase line =
      if phase = .inside then
        if isBlankLine line && 1 < e.violation.length then (e, .after) else (e.addViolation line, .inside)
      else (e.addNote line, phase) := by
  simp only [isBorder, isVerdict, Bool.or_eq_false_iff] at h
  unfold add
  rw [isVersion] at hn
  simp only [hn, h.left, h.right, Bool.or_self, Bool.false_eq_true, if_false]
  rfl

theorem isBorder_of_isVerdict (h : isVerdict line = true) : isBorder line = true := by
  simp [isBorder, h]

theorem isBorder_of_opens (h : opens line = true) : isBorder line = true := by
  simp only [opens, isBorder] at *
  grind

@[simp]
theorem unversioned_version (h : isVersion line = true) : unversioned (line :: lines) = unversioned lines := by
  simp [unversioned, h]

@[simp]
theorem unversioned_cons (h : isVersion line = false) :
    unversioned (line :: lines) = line :: unversioned lines := by
  simp [unversioned, h]

theorem Holds.after (h : e.Holds block) : (e.addAll .after lines).Holds block := by
  induction lines generalizing e
  case nil => exact h
  case cons line rest hi =>
    rw [addAll_cons]
    obtain hv | ⟨hn, hv | hv | hv⟩ := line_cases line
    · rw [add_version hv]
      exact hi ⟨h.violation, h.omitted⟩
    · rw [add_verdict hn hv, if_neg nofun]
      exact hi ⟨h.violation, h.omitted⟩
    · rw [add_opening hn hv]
      exact hi h
    · rw [add_other hn hv, if_neg nofun]
      dsimp only
      exact hi (h.addNote line)

-- Inside of a violation a border ends it, and so does a blank line behind more than one other.
theorem Holds.inside (h : e.Holds block) (hl : 1 < block.length) :
    (e.addAll .inside lines).Holds
      (block ++ (unversioned lines).takeWhile fun l => !isBorder l && !isBlankLine l) := by
  induction lines generalizing e block
  case nil => simpa [unversioned, addAll] using h
  case cons line rest hi =>
    have hv : 1 < e.violation.length := by
      simp [h.violation, violationLimit]
      omega
    rw [addAll_cons]
    obtain hk | ⟨hn, hk | hk | hk⟩ := line_cases line
    · rw [add_version hk, unversioned_version hk]
      exact hi ⟨h.violation, h.omitted⟩ hl
    · rw [add_verdict hn hk, unversioned_cons hn,
        takeWhile_cons_of_neg (by simp [isBorder_of_isVerdict hk]), append_nil]
      exact Holds.after ⟨h.violation, h.omitted⟩
    · rw [add_opening hn hk, unversioned_cons hn, takeWhile_cons_of_neg (by simp [isBorder_of_opens hk]),
        append_nil]
      exact h.after
    · rw [add_other hn hk, unversioned_cons hn, if_pos rfl]
      cases hb : isBlankLine line
      case true =>
        rw [takeWhile_cons_of_neg (by simp [hb]), append_nil, if_pos (by simp [hv])]
        exact h.after
      case false =>
        rw [takeWhile_cons_of_pos (by simp [hb, hk]), append_cons, if_neg (by simp)]
        exact hi (h.addViolation line) (by simp; omega)

theorem Holds.behindFirst (h : e.Holds block) (hl : block.length = 1) :
    (e.addAll .inside lines).Holds (block ++ violationBody (unversioned lines)) := by
  induction lines generalizing e
  case nil => simpa [violationBody, unversioned, addAll] using h
  case cons line rest hi =>
    have hv : ¬1 < e.violation.length := by
      simp [h.violation, hl, violationLimit]
    rw [addAll_cons]
    obtain hk | ⟨hn, hk | hk | hk⟩ := line_cases line
    · rw [add_version hk, unversioned_version hk]
      exact hi ⟨h.violation, h.omitted⟩
    · rw [add_verdict hn hk, unversioned_cons hn, violationBody, if_pos (isBorder_of_isVerdict hk), append_nil]
      exact Holds.after ⟨h.violation, h.omitted⟩
    · rw [add_opening hn hk, unversioned_cons hn, violationBody, if_pos (isBorder_of_opens hk), append_nil]
      exact h.after
    · rw [add_other hn hk, unversioned_cons hn, violationBody, if_pos rfl, if_neg (by simp [hv]),
        if_neg (by simp [hk]), append_cons]
      exact (h.addViolation line).inside (by simp [hl])

theorem firstViolation_version (h : isVersion line = true) :
    firstViolation (line :: lines) = firstViolation lines := by
  rw [firstViolation, unversioned_version h]
  rfl

theorem firstViolation_opening (hn : isVersion line = false) (h : opens line = true) :
    firstViolation (line :: lines) = line :: violationBody (unversioned lines) := by
  rw [firstViolation, unversioned_cons hn, dropWhile_cons_of_neg (by simp [h])]

theorem firstViolation_cons (hn : isVersion line = false) (h : opens line = false) :
    firstViolation (line :: lines) = firstViolation lines := by
  rw [firstViolation, unversioned_cons hn, dropWhile_cons_of_pos (by simp [h])]
  rfl

theorem Holds.before (h : e.Holds []) : (e.addAll .before lines).Holds (firstViolation lines) := by
  induction lines generalizing e
  case nil => exact h
  case cons line rest hi =>
    rw [addAll_cons]
    obtain hk | ⟨hn, hk | hk | hk⟩ := line_cases line
    · rw [add_version hk, firstViolation_version hk]
      exact hi ⟨h.violation, h.omitted⟩
    · rw [add_verdict hn hk, if_neg nofun, firstViolation_cons hn (by simp [opens, hk])]
      exact hi ⟨h.violation, h.omitted⟩
    · rw [add_opening hn hk, firstViolation_opening hn hk]
      exact (h.addViolation line).behindFirst rfl
    · have ho : opens line = false := by
        simp only [opens, isBorder] at *
        grind
      rw [add_other hn hk, if_neg nofun, firstViolation_cons hn ho]
      dsimp only
      exact hi (h.addNote line)

-- Of the first violation an excerpt holds the first lines, and the number of the other ones.
theorem holds_ofLines (lines : List String) : (ofLines lines).Holds (firstViolation lines) :=
  Holds.before ⟨rfl, rfl⟩

-- All lines that are taken over.
def everything (e : Excerpt) : List String :=
  e.versions ++ e.violation ++ e.notes ++ e.verdicts

theorem everything_subperm_append : e.everything <+~ e.everything ++ [line] :=
  (sublist_append_left ..).subperm

theorem everything_addViolation : (e.addViolation line).everything <+~ e.everything ++ [line] := by
  unfold addViolation
  split
  case isTrue =>
    refine (perm_iff_count.mpr fun l => ?_).subperm
    simp only [everything, count_append]
    omega
  case isFalse => exact everything_subperm_append

theorem everything_addNote : (e.addNote line).everything <+~ e.everything ++ [line] := by
  unfold addNote
  split
  case isTrue =>
    refine (perm_iff_count.mpr fun l => ?_).subperm
    simp only [everything, count_append]
    omega
  case isFalse => exact everything_subperm_append

-- A line is taken over once at most,
theorem everything_add : (e.add phase line).1.everything <+~ e.everything ++ [line] := by
  obtain hk | ⟨hn, hk | hk | hk⟩ := line_cases line
  · rw [add_version hk]
    refine (perm_iff_count.mpr fun l => ?_).subperm
    simp only [everything, count_append]
    omega
  · rw [add_verdict hn hk]
    refine (perm_iff_count.mpr fun l => ?_).subperm
    simp only [everything, count_append]
    omega
  · rw [add_opening hn hk]
    split
    · exact everything_addViolation
    · exact everything_subperm_append
  · rw [add_other hn hk]
    split
    · split
      · exact everything_subperm_append
      · exact everything_addViolation
    · dsimp only
      exact everything_addNote

-- so that no line of some output is used twice.
theorem everything_addAll : (e.addAll phase lines).everything <+~ e.everything ++ lines := by
  induction lines generalizing e phase
  case nil => simpa [addAll] using Subperm.refl e.everything
  case cons line rest hi =>
    rw [addAll_cons, append_cons]
    exact hi.trans ((subperm_append_right rest).mpr everything_add)

theorem everything_ofLines (lines : List String) : (ofLines lines).everything <+~ lines :=
  everything_addAll

-- The lines of the first violation that are shown.
def shownLines (e : Excerpt) (limit total : Nat) : List String :=
  if e.violationText.utf8ByteSize ≤ e.room limit total then e.violation else []

-- A violation with its heading, and with the number of its lines that are not shown.
def headed (violation : List String) (omitted : Nat) : List String :=
  if violation.isEmpty then []
  else
    "" :: "Violation details:" :: violation ++
      (if omitted = 0 then [] else [s!"... [{omitted} more violation lines]"])

def footerLine (total : Nat) : String :=
  s!"[output truncated: {total} chars, key lines kept]"

theorem renderedLines_eq (e : Excerpt) (limit total : Nat) :
    e.renderedLines limit total =
      e.versions ++ headed (e.shownLines limit total) e.omitted ++
        separated (e.shownNotes limit total) ++ e.verdicts := by
  have hv : (if (paragraph e.violationLines).utf8ByteSize ≤ e.room limit total then e.violationLines else []) =
      headed (e.shownLines limit total) e.omitted := by
    rw [shownLines, violationText_eq]
    split <;> rfl
  have hn : e.shownNotes limit total = fitting
      (e.room limit total - (paragraph (headed (e.shownLines limit total) e.omitted)).utf8ByteSize) e.notes := by
    rw [shownNotes, shownViolation, ←hv, violationText_eq, apply_ite paragraph, paragraph_nil]
  rw [hn, ←hv]
  rfl

theorem shown_sublist_everything (e : Excerpt) (limit total : Nat) :
    e.versions ++ e.shownLines limit total ++ e.shownNotes limit total ++ e.verdicts <+ e.everything := by
  have hv : e.shownLines limit total <+ e.violation := by
    unfold shownLines
    split
    · exact Sublist.refl _
    · exact nil_sublist _
  have hn : e.shownNotes limit total <+ e.notes := (fitting_isPrefix _ e.notes).sublist
  exact ((((Sublist.refl _).append hv).append hn).append (Sublist.refl _))

theorem Holds.shownLines_isPrefix (h : e.Holds block) (limit total : Nat) :
    e.shownLines limit total <+: block ∧ (e.shownLines limit total).length ≤ 25 := by
  unfold shownLines
  split
  case isTrue =>
    rw [h.violation]
    exact ⟨ take_prefix .., length_take_le ..⟩
  case isFalse => exact ⟨ nil_prefix, Nat.zero_le _⟩

theorem Holds.headed_eq (h : e.Holds block) (limit total : Nat) :
    headed (e.shownLines limit total) e.omitted =
      headed (e.shownLines limit total) (block.length - (e.shownLines limit total).length) := by
  unfold shownLines
  split
  case isTrue =>
    have hl : e.omitted = block.length - e.violation.length := by
      rw [h.omitted, h.violation, length_take]
      omega
    rw [hl]
  case isFalse => rfl

end Excerpt

-- What stands between the line feeds of a text.
def pieces (text : String) : List String :=
  (text.toList.splitOn '\n').map String.ofList

section Pieces

variable {lines : List String} {text : String}

theorem pieces_of_not_mem (h : '\n' ∉ text.toList) : pieces text = [text] := by
  simp [pieces, splitOn_eq_singleton h]

theorem pieces_paragraph_append (h : ∀ l ∈ lines, '\n' ∉ l.toList) :
    pieces (Excerpt.paragraph lines ++ text) = lines ++ pieces text := by
  induction lines
  case nil => simp
  case cons line lines hi =>
    obtain ⟨hl, h⟩ := forall_mem_cons.mp h
    have he : (Excerpt.paragraph (line :: lines) ++ text).toList =
        line.toList ++ '\n' :: (Excerpt.paragraph lines ++ text).toList := by
      simp
    rw [pieces, he, splitOn_append_cons_self_of_not_mem hl, map_cons, String.ofList_toList, ←pieces, hi h,
      cons_append]

theorem newline_not_mem_footerLine (total : Nat) : '\n' ∉ (Excerpt.footerLine total).toList :=
  not_mem_numbered total (by decide) (by decide) (by decide)

theorem pieces_footer (total : Nat) :
    pieces (Excerpt.footer total) = ["", Excerpt.footerLine total] := by
  have hl : "\n[output truncated: " = Excerpt.paragraph [""] ++ "[output truncated: " := by decide
  have hf : Excerpt.footerLine total = "[output truncated: " ++ (toString total ++ " chars, key lines kept]") :=
    String.append_assoc
  have he : Excerpt.footer total = Excerpt.paragraph [""] ++ Excerpt.footerLine total := calc
    Excerpt.footer total = "\n[output truncated: " ++ toString total ++ " chars, key lines kept]" := rfl
    _ = Excerpt.paragraph [""] ++ Excerpt.footerLine total := by
      rw [hl, String.append_assoc, String.append_assoc, ←hf]
  rw [he, pieces_paragraph_append (by decide), pieces_of_not_mem (newline_not_mem_footerLine total)]
  rfl

end Pieces

-- A text that consists of lines of some output: the versions, lines of a violation, notes and the verdicts.
structure Selects (output text : String) (violation notes : List String) : Prop where
  -- Besides them it has headings, an empty line in front of the notes, and the footer.
  pieces :
    pieces text = versionLines output ++
      Excerpt.headed violation ((Excerpt.firstViolation (outputLines output)).length - violation.length) ++
      Excerpt.separated notes ++ verdictLines output ++ ["", Excerpt.footerLine output.utf8ByteSize]
  -- No line of the output is used twice.
  once : versionLines output ++ violation ++ notes ++ verdictLines output <+~ outputLines output
  first : violation <+: Excerpt.firstViolation (outputLines output)
  bounded : violation.length ≤ 25
  verdict : ∀ m ∈ verdictMarkers, marks m text ↔ marks m output

theorem newline_not_mem_outputLines (output : String) : ∀ l ∈ outputLines output, '\n' ∉ l.toList := by
  simp only [outputLines, forall_mem_map, String.toList_ofList]
  exact Text.newline_not_mem_lines output.toList

theorem newline_not_mem_headed {violation : List String} (h : ∀ l ∈ violation, '\n' ∉ l.toList) (omitted : Nat) :
    ∀ l ∈ Excerpt.headed violation omitted, '\n' ∉ l.toList := by
  have hc : '\n' ∉ s!"... [{omitted} more violation lines]".toList :=
    not_mem_numbered omitted (by decide) (by decide) (by decide)
  unfold Excerpt.headed
  split
  case isTrue => exact fun _ => nofun
  case isFalse =>
    simp only [cons_append, forall_mem_cons, forall_mem_append]
    refine ⟨by decide, by decide, h, ?_⟩
    split
    case isTrue   => exact fun _ => nofun
    case isFalse  => exact forall_mem_singleton.mpr hc

theorem newline_not_mem_separated {notes : List String} (h : ∀ l ∈ notes, '\n' ∉ l.toList) :
    ∀ l ∈ Excerpt.separated notes, '\n' ∉ l.toList := by
  intro l hl
  obtain rfl | hl := Excerpt.mem_separated hl
  · decide
  · exact h l hl

-- Output that is too long is replaced by some of its lines.
theorem truncate_selects {output : String} {limit : Nat} (long : limit < output.utf8ByteSize) :
    ∃ violation notes, Selects output (truncate output limit) violation notes := by
  let e := Excerpt.ofLines (outputLines output)
  have ht : truncate output limit = e.render limit output.utf8ByteSize := if_neg (by omega)
  have hh : e.Holds _ := Excerpt.holds_ofLines (outputLines output)
  have hvs : e.versions = versionLines output := Excerpt.versions_ofLines _
  have hvd : e.verdicts = verdictLines output := Excerpt.verdicts_ofLines _
  have once : versionLines output ++ e.shownLines limit output.utf8ByteSize ++
      e.shownNotes limit output.utf8ByteSize ++ verdictLines output <+~ outputLines output := by
    rw [←hvs, ←hvd]
    exact (e.shown_sublist_everything ..).subperm.trans (Excerpt.everything_ofLines _)
  obtain ⟨first, bounded⟩ := hh.shownLines_isPrefix limit output.utf8ByteSize
  refine ⟨_, _, ?_, once, first, bounded, fun m hm => marks_truncate_iff hm output limit⟩
  have hf := fun l hl => newline_not_mem_outputLines output l (once.subset hl)
  simp only [forall_mem_append] at hf
  obtain ⟨⟨⟨fs, fv⟩, fn⟩, fd⟩ := hf
  rw [ht, Excerpt.render_eq, Excerpt.renderedLines_eq, hh.headed_eq, hvs, hvd, pieces_paragraph_append, pieces_footer]
  simp only [forall_mem_append]
  exact ⟨⟨⟨fs, newline_not_mem_headed fv _⟩, newline_not_mem_separated fn⟩, fd⟩

-- A blank line behind the first line of a violation belongs to it, and the next one ends it.
def storied : String :=
  "ESBMC version 7.4\nParsing main.c\nwarning: no body for f\nGenerating GOTO program\nStarting symbolic execution\n" ++
    "Violated property:\n\nmain.c line 3\noverflow\n\nVERIFICATION FAILED\n"

theorem storied_selects :
    170 < storied.utf8ByteSize ∧
      Excerpt.firstViolation (outputLines storied) = ["Violated property:", "", "main.c line 3", "overflow"] ∧
      ∃ violation notes, Selects storied (truncate storied 170) violation notes := by
  have long : 170 < storied.utf8ByteSize := by decide +kernel
  have hs : storied.toList = _ := String.toList_append.trans <| congrArg₂ (· ++ ·) String.toList_ofList String.toList_ofList
  refine ⟨long, ?_, truncate_selects long⟩
  rw [outputLines, hs]
  decide +kernel

end PyVerify
