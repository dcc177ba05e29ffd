/-!
# Searching texts

`Occurs` says that a text contains another one, and `contains` decides it.
-/

namespace PyVerify.Text

/-- The text contains `needle`. -/
def Occurs (needle text : List Char) : Prop :=
  ∃ before after, text = before ++ needle ++ after

def contains (needle : List Char) : List Char → Bool
  | [] => needle.isEmpty
  | c :: cs => needle.isPrefixOf (c :: cs) || contains needle cs

theorem contains_iff {needle text : List Char} : contains needle text ↔ Occurs needle text := by
  induction text with
  | nil =>
    simp only [contains, List.isEmpty_iff, Occurs]
    constructor
    · rintro rfl
      exact ⟨[], [], rfl⟩
    · rintro ⟨before, after, h⟩
      simp_all
  | cons c cs ih =>
    simp only [contains, Bool.or_eq_true, List.isPrefixOf_iff_prefix, ih]
    constructor
    · rintro (⟨after, h⟩ | ⟨before, after, rfl⟩)
      · exact ⟨[], after, by simp [h]⟩
      · exact ⟨c :: before, after, by simp⟩
    · rintro ⟨before, after, h⟩
      cases before with
      | nil => exact .inl ⟨after, by simpa using h.symm⟩
      | cons d before =>
        simp only [List.cons_append, List.cons.injEq] at h
        exact .inr ⟨before, after, by simpa using h.2⟩

instance (needle text : List Char) : Decidable (Occurs needle text) :=
  decidable_of_iff _ contains_iff


end PyVerify.Text
