import Mathlib.Data.List.Induction
import Mathlib.Data.List.Nodup
import PyVerify.Profile.Distinct

namespace PyVerify

variable {α : Type} [DecidableEq α] {kept values : List α} {x y : α}

theorem addDistinct_cons :
    addDistinct kept (x :: values) = addDistinct (if x ∈ kept then kept else kept ++ [x]) values := by
  simp [addDistinct]

theorem addDistinct_append_singleton :
    addDistinct kept (values ++ [x]) =
      if x ∈ addDistinct kept values then addDistinct kept values
      else addDistinct kept values ++ [x] := by
  simp [addDistinct]

theorem addDistinct_append {more : List α} :
    addDistinct kept (values ++ more) = addDistinct (addDistinct kept values) more := by
  simp [addDistinct]

theorem mem_addDistinct : x ∈ addDistinct kept values ↔ x ∈ kept ∨ x ∈ values := by
  induction values generalizing kept
  case nil => simp [addDistinct]
  case cons y values hi =>
    rw [addDistinct_cons, hi]
    split <;> grind

theorem prefix_addDistinct : kept <+: addDistinct kept values := by
  induction values generalizing kept
  case nil => exact List.prefix_rfl
  case cons x values hi =>
    rw [addDistinct_cons]
    split
    case isTrue   => exact hi
    case isFalse  => exact (List.prefix_append kept [x]).trans hi

theorem addDistinct_nodup (h : kept.Nodup) : (addDistinct kept values).Nodup := by
  induction values generalizing kept
  case nil => exact h
  case cons y values hi =>
    rw [addDistinct_cons]
    split
    case isTrue     => exact hi h
    case isFalse hn => exact hi <| List.concat_eq_append ▸ h.concat hn

-- A list names the values of another one, each of them once and by the order of first occurrences.
structure FirstOccurrences (values kept : List α) : Prop where
  nodup   : kept.Nodup
  mem_iff : ∀ x, x ∈ kept ↔ x ∈ values
  order   : ∀ x ∈ kept, ∀ y ∈ kept, kept.idxOf x < kept.idxOf y ↔ values.idxOf x < values.idxOf y

-- A value that is not there is looked for up to the end, which is where it then stands.
theorem idxOf_append_singleton (hx : x ∉ values) (hy : y ∈ values ++ [x]) :
    (values ++ [x]).idxOf y = values.idxOf y := by
  rcases List.mem_append.mp hy with h | h
  · exact List.idxOf_append_of_mem h
  · obtain rfl := List.mem_singleton.mp h
    simp [List.idxOf_append_of_notMem hx, List.idxOf_eq_length hx]

namespace FirstOccurrences

theorem append_of_mem (f : FirstOccurrences values kept) (h : x ∈ kept) :
    FirstOccurrences (values ++ [x]) kept where
  nodup := f.nodup
  mem_iff y := by grind [f.mem_iff x, f.mem_iff y]
  order y hy z hz := by
    have hy' := (f.mem_iff y).mp hy
    have hz' := (f.mem_iff z).mp hz
    rw [List.idxOf_append_of_mem hy', List.idxOf_append_of_mem hz']
    exact f.order y hy z hz

theorem append_of_not_mem (f : FirstOccurrences values kept) (h : x ∉ kept) :
    FirstOccurrences (values ++ [x]) (kept ++ [x]) where
  nodup := List.concat_eq_append ▸ f.nodup.concat h
  mem_iff y := by simp [f.mem_iff y]
  order y hy z hz := by
    have hv : x ∉ values := (f.mem_iff x).not.mp h
    have mem_values {u} (hu : u ∈ kept ++ [x]) : u ∈ values ++ [x] := by simpa [f.mem_iff] using hu
    rw [idxOf_append_singleton h hy, idxOf_append_singleton h hz,
      idxOf_append_singleton hv (mem_values hy), idxOf_append_singleton hv (mem_values hz)]
    have hk := List.idxOf_eq_length h
    have hl := List.idxOf_eq_length hv
    grind [f.order y, f.mem_iff y, f.mem_iff z, List.idxOf_lt_length_iff, List.idxOf_le_length]

end FirstOccurrences

theorem distinct_firstOccurrences (values : List α) : FirstOccurrences values (distinct values) := by
  induction values using List.reverseRecOn
  case nil => exact ⟨List.nodup_nil, by simp [distinct, addDistinct], by simp [distinct, addDistinct]⟩
  case append_singleton values x hi =>
    rw [distinct, addDistinct_append_singleton]
    split
    case isTrue h  => exact hi.append_of_mem h
    case isFalse h => exact hi.append_of_not_mem h

end PyVerify
