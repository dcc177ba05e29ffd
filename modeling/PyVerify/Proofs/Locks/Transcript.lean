import Mathlib.Data.List.Basic
import PyVerify.Locks.Record
import PyVerify.Proofs.Text.Line

namespace PyVerify.Locks

open List Text

section Marker

variable {line text rest json : List Char}

theorem hazardMarker_oneLine : OneLine hazardMarker.toList where
  nonempty  := by decide
  feed      := by decide
  carriage  := by decide

theorem record?_isNone_iff : (record? line).isNone ↔ ¬hazardMarker.toList <+: line := by
  rw [← isPrefixOf_iff_prefix]
  unfold record?
  split <;> simp_all

@[simp]
theorem record?_marked : record? (hazardMarker.toList ++ json) = some json := by
  unfold record?
  rw [if_pos (by simp), ←String.length_toList, drop_left]

-- The marker ends with the only blank in it, so that it cannot begin in some text in front of it.
theorem not_prefix_append_marker (hn : text ≠ []) (hp : ¬hazardMarker.toList <+: text) :
    ¬hazardMarker.toList <+: text ++ (hazardMarker.toList ++ rest) := by
  intro h
  have hm : hazardMarker.toList = "@@VIGIL_HAZARD@@".toList ++ [' '] := by decide
  obtain ⟨tail, ht⟩ := Or.resolve_left ( prefix_or_prefix_of_prefix h (prefix_append ..)) hp
  have hl : tail.length ≤ "@@VIGIL_HAZARD@@".toList.length := by
    have := congrArg length (ht.trans hm)
    have := length_pos_of_ne_nil hn
    simp only [length_append, length_singleton] at *
    omega
  have hb : tail <+: "@@VIGIL_HAZARD@@".toList := by
    rw [←ht, prefix_append_right_inj, ht, hm, append_assoc] at h
    exact prefix_of_prefix_length_le h (prefix_append ..) hl
  have hs : ' ' ∈ tail := by
    have hg := congrArg getLast? (ht.trans hm)
    have ht : tail ≠ [] := by
      rintro rfl
      exact hp (((append_nil text).symm.trans ht) ▸ prefix_rfl)
    rw [getLast?_append_of_ne_nil _ ht] at hg
    exact mem_of_getLast? (hg.trans (by simp))
  exact absurd (hb.subset hs) (by decide)

end Marker

section Split

variable {α : Type} {read : List Char → Option α} {lines more : List (List Char)} {json : List Char} {a : α}

theorem splitRecords_append :
    splitRecords read (lines ++ more) =
      ((splitRecords read lines).1 ++ (splitRecords read more).1,
        (splitRecords read lines).2 ++ (splitRecords read more).2) := by
  simp [splitRecords]

theorem splitRecords_plain (h : ∀ l ∈ lines, ¬hazardMarker.toList <+: l) :
    splitRecords read lines = ([], lines) := by
  have hr : ∀ l ∈ lines, record? l = none := fun l hl =>
    Option.isNone_iff_eq_none.mp <| record?_isNone_iff.mpr (h l hl)
  unfold splitRecords
  congr 1
  · exact filterMap_eq_nil_iff.mpr fun l hl => by simp [hr l hl]
  · exact filter_eq_self.mpr fun l hl => by simp [hr l hl]

theorem splitRecords_record (h : read json = some a) :
    splitRecords read ((hazardMarker.toList ++ json) :: lines) =
      (a :: (splitRecords read lines).1, (splitRecords read lines).2) := by
  simp [splitRecords, h]

end Split

-- What is written to the standard error of a script: in front of each record what the program has
-- written since the one before, and behind the last record what it writes then. Records get in
-- between unasked, so that a text may end in the middle of a line.
structure Transcript where
  entries : List (List Char × Hazard)
  rest    : List Char

namespace Transcript

-- The program's own texts.
def texts (t : Transcript) : List (List Char) :=
  t.entries.map Prod.fst ++ [t.rest]

def program (t : Transcript) : List Char :=
  t.texts.flatten

def hazards (t : Transcript) : List Hazard :=
  t.entries.map Prod.snd

-- All records start lines of their own.
def Tidy (t : Transcript) : Prop :=
  ∀ entry ∈ t.entries, Complete entry.1

-- The hazards whose records start a line.
def found (t : Transcript) : List Hazard :=
  (t.entries.filter fun entry => Complete entry.1).map Prod.snd

variable (encode : Hazard → List Char)

def recordLine (hazard : Hazard) : List Char :=
  hazardMarker.toList ++ (encode hazard ++ ['\n'])

def written (t : Transcript) : List Char :=
  (t.entries.flatMap fun entry => entry.1 ++ recordLine encode entry.2) ++ t.rest

-- All but the records that start a line.
def kept (t : Transcript) : List Char :=
  (t.entries.flatMap fun entry =>
    entry.1 ++ if Complete entry.1 then [] else recordLine encode entry.2) ++ t.rest

variable {encode}

section Entry

variable {text : List Char} {hazard : Hazard}

-- A record that starts a line is read.
theorem lines_recordLine (hf : '\n' ∉ encode hazard) (hc : '\r' ∉ encode hazard) (more : List Char) :
    lines (recordLine encode hazard ++ more) = (hazardMarker.toList ++ encode hazard) :: lines more := by
  have hn : '\n' ∉ hazardMarker.toList ++ encode hazard := by
    simp [hazardMarker_oneLine.feed, hf]
  have hr : '\r' ∉ hazardMarker.toList ++ encode hazard := by
    simp [hazardMarker_oneLine.carriage, hc]
  have he : recordLine encode hazard ++ more = (hazardMarker.toList ++ encode hazard) ++ '\n' :: more := by
    simp [recordLine]
  rw [he, lines_append_newline hn, withoutReturn_of_not_mem hr]

theorem not_prefix_of_mem_lines (h : ¬Occurs hazardMarker.toList text) :
    ∀ l ∈ lines text, ¬hazardMarker.toList <+: l :=
  fun l hl hp => h <| (hazardMarker_oneLine.occurs_lines_iff text).mp
    ⟨l, hl, occurs_iff.mpr hp.isInfix⟩

-- A record in the middle of a line is a part of that line, which is not taken for a record.
theorem not_prefix_of_mem_lines_glued (hf : '\n' ∉ encode hazard) (hc : ¬Complete text)
    (h : ¬Occurs hazardMarker.toList text) :
    ∀ l ∈ lines (text ++ recordLine encode hazard), ¬hazardMarker.toList <+: l := by
  induction text using lineInduction
  case last text hn =>
    have ht : text ≠ [] := fun he => hc (he ▸ .nil)
    have hg : '\n' ∉ text ++ (hazardMarker.toList ++ encode hazard) := by
      simp [hn, hazardMarker_oneLine.feed, hf]
    have he : text ++ recordLine encode hazard =
        (text ++ (hazardMarker.toList ++ encode hazard)) ++ '\n' :: [] := by
      simp [recordLine]
    rw [he, lines_append_newline hg]
    refine forall_mem_singleton.mpr fun hp => ?_
    refine not_prefix_append_marker ht (fun hp => h ?_) (hp.trans (withoutReturn_isPrefix _))
    exact occurs_iff.mpr hp.isInfix
  case step line rest hn hi =>
    rw [occurs_append_cons_iff hazardMarker_oneLine.feed, not_or] at h
    rw [append_assoc, cons_append, lines_append_newline hn]
    refine forall_mem_cons.mpr ⟨fun hp => h.left ?_, hi (fun hr => hc hr.newline_append) h.right⟩
    exact occurs_iff.mpr (hp.trans (withoutReturn_isPrefix line)).isInfix

end Entry

section Cons

variable {entry : List Char × Hazard} {entries : List (List Char × Hazard)} {rest : List Char}

theorem written_cons :
    written encode ⟨entry :: entries, rest⟩ =
      entry.1 ++ (recordLine encode entry.2 ++ written encode ⟨entries, rest⟩) := by
  simp [written]

theorem kept_cons_of_complete (h : Complete entry.1) :
    kept encode ⟨entry :: entries, rest⟩ = entry.1 ++ kept encode ⟨entries, rest⟩ := by
  simp [kept, h]

theorem kept_cons_of_not_complete (h : ¬Complete entry.1) :
    kept encode ⟨entry :: entries, rest⟩ =
      (entry.1 ++ recordLine encode entry.2) ++ kept encode ⟨entries, rest⟩ := by
  simp [kept, h]

end Cons

variable {t : Transcript}

theorem complete_recordLine (text : List Char) (hazard : Hazard) :
    Complete (text ++ recordLine encode hazard) := by
  rw [recordLine, ←append_assoc, ←append_assoc]
  exact .append_newline _

theorem splitRecords_written (reads : ∀ h ∈ t.hazards, Hazard.ofJson? (encode h) = some h)
    (unbroken : ∀ h ∈ t.hazards, '\n' ∉ encode h ∧ '\r' ∉ encode h)
    (plain : ∀ text ∈ t.texts, ¬Occurs hazardMarker.toList text) :
    splitRecords Hazard.ofJson? (lines (t.written encode)) = (t.found, lines (t.kept encode)) := by
  obtain ⟨entries, rest⟩ := t
  induction entries
  case nil =>
    have hp : ¬Occurs hazardMarker.toList rest := plain rest (by simp [texts])
    simpa [written, kept, found] using splitRecords_plain (not_prefix_of_mem_lines hp)
  case cons entry entries hi =>
    obtain ⟨text, hazard⟩ := entry
    obtain ⟨hr, reads⟩ := forall_mem_cons.mp reads
    obtain ⟨⟨hf, hc⟩, unbroken⟩ := forall_mem_cons.mp unbroken
    obtain ⟨hp, plain⟩ := forall_mem_cons.mp plain
    have hi := hi reads unbroken plain
    rw [written_cons]
    by_cases ht : Complete text
    case pos =>
      have hs : splitRecords Hazard.ofJson? (lines text) = ([], lines text) :=
        splitRecords_plain (not_prefix_of_mem_lines hp)
      rw [kept_cons_of_complete ht, lines_append ht, lines_recordLine hf hc, splitRecords_append, hs,
        splitRecords_record hr, hi, lines_append ht]
      simp [found, ht]
    case neg =>
      let joined := text ++ recordLine encode hazard
      have hs : splitRecords Hazard.ofJson? (lines joined) = ([], lines joined) :=
        splitRecords_plain (not_prefix_of_mem_lines_glued hf ht hp)
      have hl : Complete joined := complete_recordLine text hazard
      rw [kept_cons_of_not_complete ht, ←append_assoc, lines_append hl, splitRecords_append, hs, hi,
        lines_append hl]
      simp [found, ht]

theorem found_eq_hazards_iff : t.found = t.hazards ↔ t.Tidy := by
  constructor
  case mp =>
    intro h
    have hl := congrArg length h
    simp only [found, hazards, length_map, length_filter_eq_length_iff] at hl
    exact fun entry he => by simpa using hl entry he
  case mpr =>
    intro h
    have hf : t.entries.filter (fun entry => Complete entry.1) = t.entries :=
      filter_eq_self.mpr fun entry he => by simpa using h entry he
    rw [found, hf, hazards]

theorem kept_of_tidy (h : t.Tidy) : t.kept encode = t.program := by
  obtain ⟨entries, rest⟩ := t
  induction entries
  case nil => simp [kept, program, texts]
  case cons entry entries hi =>
    obtain ⟨hc, h⟩ := forall_mem_cons.mp h
    rw [kept_cons_of_complete hc, hi h]
    simp [program, texts]

-- The program's own text is passed on.
theorem program_sublist_kept : t.program <+ t.kept encode := by
  obtain ⟨entries, rest⟩ := t
  induction entries
  case nil => simp [kept, program, texts]
  case cons entry entries hi =>
    have hp : program ⟨entry :: entries, rest⟩ = entry.1 ++ program ⟨entries, rest⟩ := by
      simp [program, texts]
    rw [hp]
    by_cases hc : Complete entry.1
    case pos =>
      rw [kept_cons_of_complete hc]
      exact hi.append_left entry.1
    case neg =>
      rw [kept_cons_of_not_complete hc]
      exact (sublist_append_left entry.1 _).append hi

theorem occurs_kept_iff (plain : ∀ text ∈ t.texts, ¬Occurs hazardMarker.toList text) :
    Occurs hazardMarker.toList (t.kept encode) ↔ ¬t.Tidy := by
  obtain ⟨entries, rest⟩ := t
  induction entries
  case nil => simpa [kept, Tidy, texts] using plain
  case cons entry entries hi =>
    obtain ⟨hp, plain⟩ := forall_mem_cons.mp plain
    have hi := hi plain
    by_cases hc : Complete entry.1
    case pos =>
      rw [kept_cons_of_complete hc, hazardMarker_oneLine.occurs_append_iff hc, hi]
      simp [Tidy, hp, hc]
    case neg =>
      rw [kept_cons_of_not_complete hc]
      refine iff_of_true ⟨entry.1, encode entry.2 ++ ['\n'] ++ kept encode ⟨entries, rest⟩, ?_⟩ ?_
      · simp [recordLine]
      · exact fun h => hc (forall_mem_cons.mp h).left

end Transcript

open Transcript

variable {encode : Hazard → List Char} {t : Transcript}

-- A record is found if and only if it starts a line. The program's own text is passed on in any case,
-- and so is, with the line that it is in, each record that is not found.
theorem splitHazards_written (reads : ∀ h ∈ t.hazards, Hazard.ofJson? (encode h) = some h)
    (unbroken : ∀ h ∈ t.hazards, '\n' ∉ encode h ∧ '\r' ∉ encode h)
    (plain : ∀ text ∈ t.texts, ¬Occurs hazardMarker.toList text) :
    ∃ rest, splitHazards (String.ofList (t.written encode)) = (t.found, String.ofList rest) ∧
      rest = unlines (lines (t.kept encode)) ∧
      (t.found = t.hazards ↔ t.Tidy) ∧
      (Occurs hazardMarker.toList rest ↔ ¬t.Tidy) ∧
      visible t.program <+ visible rest ∧
      (t.Tidy → rest = unlines (lines t.program) ∧ visible rest = visible t.program) := by
  refine ⟨unlines (lines (t.kept encode)), ?_, rfl, found_eq_hazards_iff, ?_, ?_, fun h => ?_⟩
  · simp [splitHazards, splitRecords_written reads unbroken plain]
  · rw [hazardMarker_oneLine.occurs_unlines_lines_iff]
    exact occurs_kept_iff plain
  · rw [visible_unlines_lines]
    exact program_sublist_kept.filter _
  · rw [visible_unlines_lines, kept_of_tidy h]
    exact ⟨rfl, rfl⟩

-- The JSON text of a hazard on one line.
def Hazard.compact (h : Hazard) : List Char :=
  let list (values : List String) := "[" ++ ",".intercalate (values.map Json.quoted) ++ "]"
  ("\x7b\"kind\":" ++ Json.quoted h.kind.name ++ ",\"threads\":" ++ list h.threads ++
    ",\"locks\":" ++ list h.locks ++ ",\"message\":" ++ Json.quoted h.message ++ "\x7d").toList

-- A record behind a text that is not ended, and one behind a line.
def glued : Transcript where
  entries :=
    [("Loading ".toList, ⟨.orderingInversion, ["B", "A"], ["Lock#2", "Lock#1"], "inconsistent lock ordering"⟩),
     ("done\n".toList, ⟨.circularWait, ["A", "B"], ["Lock#1", "Lock#2"], "circular wait"⟩)]
  rest := "bye".toList

theorem glued_reads : ∀ h ∈ glued.hazards, Hazard.ofJson? h.compact = some h := by
  decide +kernel

theorem glued_unbroken : ∀ h ∈ glued.hazards, '\n' ∉ h.compact ∧ '\r' ∉ h.compact := by
  decide +kernel

theorem glued_plain : ∀ text ∈ glued.texts, ¬Occurs hazardMarker.toList text := by
  decide +kernel

theorem glued_not_tidy : ¬glued.Tidy :=
  fun h => absurd (h _ mem_cons_self) (by decide)

theorem glued_split :
    (∀ h ∈ glued.hazards, Hazard.ofJson? h.compact = some h) ∧
    (∀ h ∈ glued.hazards, '\n' ∉ h.compact ∧ '\r' ∉ h.compact) ∧
    (∀ text ∈ glued.texts, ¬Occurs hazardMarker.toList text) ∧
    ∃ rest, splitHazards (String.ofList (glued.written Hazard.compact)) =
        ([⟨.circularWait, ["A", "B"], ["Lock#1", "Lock#2"], "circular wait"⟩], String.ofList rest) ∧
      Occurs hazardMarker.toList rest ∧ visible "Loading done\nbye".toList <+ visible rest := by
  obtain ⟨rest, hs, -, -, hm, hv, -⟩ := splitHazards_written glued_reads glued_unbroken glued_plain
  exact ⟨glued_reads, glued_unbroken, glued_plain, rest, hs, hm.mpr glued_not_tidy, hv⟩

-- The first hazard is not found.
theorem glued_lost :
    (∀ h ∈ glued.hazards, Hazard.ofJson? h.compact = some h) ∧
    (∀ h ∈ glued.hazards, '\n' ∉ h.compact ∧ '\r' ∉ h.compact) ∧
    (∀ text ∈ glued.texts, ¬Occurs hazardMarker.toList text) ∧
    (splitHazards (String.ofList (glued.written Hazard.compact))).1 ≠ glued.hazards := by
  have hs : (splitHazards (String.ofList (glued.written Hazard.compact))).1 = glued.found := by
    simp [splitHazards, splitRecords_written glued_reads glued_unbroken glued_plain]
  rw [hs, ne_eq, found_eq_hazards_iff]
  exact ⟨glued_reads, glued_unbroken, glued_plain, glued_not_tidy⟩

end PyVerify.Locks
