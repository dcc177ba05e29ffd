import PyVerify.Checker.Attempt
import PyVerify.Proofs.Text.Line

namespace PyVerify

open Text

variable {marker before after : List Char}

namespace Text

theorem Occurs.of_nil (h : Occurs marker []) (text : List Char) : Occurs marker text := by
  obtain rfl := List.infix_nil.mp <| occurs_iff.mp h
  exact occurs_iff.mpr List.nil_infix

-- What is within a line is not torn behind the end of a line.
theorem Complete.occurs_append_iff (h : Complete before) (hm : '\n' ∉ marker) :
    Occurs marker (before ++ after) ↔ Occurs marker before ∨ Occurs marker after := by
  obtain rfl | ⟨line, c, rfl⟩ := List.eq_nil_or_concat before
  case inl => exact ⟨.inr, fun ho => ho.elim (·.of_nil _) id⟩
  case inr =>
    obtain rfl : c = '\n' := h c (by simp)
    rw [List.concat_eq_append, List.append_assoc, List.singleton_append, occurs_append_cons_iff hm, occurs_append_cons_iff hm]
    constructor
    case mp  => exact .imp_left .inl
    case mpr => exact fun ho => ho.elim (.imp_right (·.of_nil _)) .inr

end Text

namespace Run

-- A line feed is put between two streams where else the second would go on with a line of the first.
theorem toList_combine (stdout stderr : String) : (combine stdout stderr).toList =
    if Complete stdout.toList ∨ stderr.toList = [] then stdout.toList ++ stderr.toList
    else stdout.toList ++ '\n' :: stderr.toList := by
  have hc : Complete stdout.toList ↔ stdout.toList = [] ∨ stdout.toList.getLast? = some '\n' := by
    obtain h | ⟨line, c, h⟩ := List.eq_nil_or_concat stdout.toList <;> simp [h, Complete]
  have hi : (stdout.isEmpty || stderr.isEmpty || stdout.toList.getLast? == some '\n') ↔ Complete stdout.toList ∨ stderr.toList = [] := by
    simp [hc, or_right_comm]
  simp only [combine, hi]
  split <;> simp

-- Nothing within a line is in the output of a run that is in neither of its streams.
theorem occurs_output_iff (hm : '\n' ∉ marker) (r : Run) :
    Occurs marker r.output.toList ↔ Occurs marker r.stdout.toList ∨ Occurs marker r.stderr.toList := by
  rw [output, toList_combine]
  split
  case isFalse => exact occurs_append_cons_iff hm ..
  case isTrue h =>
    obtain h | h := h
    case inl => exact h.occurs_append_iff hm
    case inr =>
      rw [h, List.append_nil]
      exact ⟨.inl, fun ho => ho.elim id (·.of_nil _)⟩

end Run

-- A run whose streams would have a verdict between them.
def torn : Run :=
  ⟨some 0, "Timed out\nVERIFICATION ", "SUCCESSFUL\nunwinding assertion", false, .ofMilliseconds 5⟩

theorem torn_occurs_output :
    (∀ m ∈ [successMarker, failureMarker, unwindingMarker, timeoutMarker], '\n' ∉ m.toList ∧
      (Occurs m.toList torn.output.toList ↔ Occurs m.toList torn.stdout.toList ∨ Occurs m.toList torn.stderr.toList)) ∧
    Occurs successMarker.toList (torn.stdout.toList ++ torn.stderr.toList) ∧ ¬Occurs successMarker.toList torn.output.toList := by
  have hm : ∀ m ∈ [successMarker, failureMarker, unwindingMarker, timeoutMarker], '\n' ∉ m.toList := by decide
  exact ⟨fun m h => ⟨hm m h, torn.occurs_output_iff (hm m h)⟩, by decide +kernel, by decide +kernel⟩

end PyVerify
