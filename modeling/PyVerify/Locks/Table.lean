/-!
# Tables

A table gives values to finitely many keys. All operations are known by what `get?` says after them.
-/

namespace PyVerify.Locks

structure Table (κ ν : Type) where
  entries : List (κ × ν)
deriving Repr

namespace Table

variable {κ ν : Type} [DecidableEq κ]

def empty : Table κ ν := ⟨[]⟩

def get? (t : Table κ ν) (key : κ) : Option ν :=
  (t.entries.find? fun e => e.1 = key).map Prod.snd

def erase (t : Table κ ν) (key : κ) : Table κ ν :=
  ⟨t.entries.filter fun e => e.1 ≠ key⟩

def insert (t : Table κ ν) (key : κ) (value : ν) : Table κ ν :=
  ⟨(key, value) :: (t.erase key).entries⟩

def values (t : Table κ ν) : List ν :=
  t.entries.map Prod.snd

@[simp]
theorem get?_empty (key : κ) : (empty : Table κ ν).get? key = none := rfl

@[simp]
theorem get?_erase (t : Table κ ν) (key k : κ) :
    (t.erase key).get? k = if k = key then none else t.get? k := by
  simp only [get?, erase, List.find?_filter]
  split
  case isTrue h =>
    subst h
    have : (t.entries.find? fun e => decide (e.1 ≠ k) && decide (e.1 = k)) = none := by
      simp +contextual [List.find?_eq_none]
    simp_all
  case isFalse h =>
    congr 2
    funext e
    by_cases he : e.1 = k
    · simp_all
    · simp [he]

@[simp]
theorem get?_insert (t : Table κ ν) (key k : κ) (value : ν) :
    (t.insert key value).get? k = if k = key then some value else t.get? k := by
  by_cases h : k = key
  · subst h
    simp [get?, insert]
  · have hk : ¬ key = k := fun e => h e.symm
    have := get?_erase t key k
    simp_all [get?, insert]

theorem mem_values {t : Table κ ν} {key : κ} {value : ν} (h : t.get? key = some value) :
    value ∈ t.values := by
  simp only [get?, Option.map_eq_some_iff] at h
  obtain ⟨e, he, rfl⟩ := h
  exact List.mem_map_of_mem (List.mem_of_find?_eq_some he)

end Table
end PyVerify.Locks
