import Mathlib.Data.List.Nodup
import PyVerify.Proofs.Locks.Effect

namespace PyVerify.Locks

namespace Operation

-- Which lock a thread waits for after an operation, given which one it waited for before.
def pending (thread : ThreadId) (before : Option LockId) : Operation → Option LockId
  | .request _ t lock               => if t = thread then some lock else before
  | .grant _ t _ _ | .deny _ t _    => if t = thread then none else before
  | _                               => before

-- Which locks a thread has after an operation, given which ones it had before.
def taken (thread : ThreadId) (before : List LockId) : Operation → List LockId
  | .grant _ t lock _   => if t = thread then before ++ [lock] else before
  | .release _ t lock   => if t = thread then before.filter (· ≠ lock) else before
  | _                   => before

def isRelease (thread : ThreadId) (lock : LockId) : Operation → Bool
  | .release _ t l => t = thread ∧ lock = l
  | _              => false

def isDeny : Operation → Bool
  | .deny .. => true
  | _        => false

end Operation

-- The lock that a thread has asked for and that has been neither granted nor denied since.
def pending (thread : ThreadId) (ops : List Operation) : Option LockId :=
  ops.foldl (fun lock op => op.pending thread lock) none

-- The locks that were granted to a thread and that it has not released since, in the order of the
-- grants.
def taken (thread : ThreadId) : List Operation → List LockId
  | [] => []
  | .grant _ t lock _ :: later =>
    if t = thread ∧ ¬later.any (·.isRelease thread lock) then lock :: taken thread later
    else taken thread later
  | _ :: later => taken thread later

-- What threads and locks can do next. A thread waits for one lock at a time and does nothing else
-- meanwhile, and a lock that somebody has is granted to nobody.
inductive Permits (ops : List Operation) : Operation → Prop
  | registerLock : Permits ops (.registerLock lock name)
  | registerThread : Permits ops (.registerThread thread name)
  | request (idle : pending thread ops = none) : Permits ops (.request time thread lock)
  | grant (waits : pending thread ops = some lock) (free : ∀ t, lock ∉ taken t ops) :
    Permits ops (.grant time thread lock waited)
  | deny (waits : pending thread ops = some lock) : Permits ops (.deny time thread lock)
  | release (has : lock ∈ taken thread ops) (idle : pending thread ops = none) :
    Permits ops (.release time thread lock)
  | rehash : Permits ops (.rehash history)

-- Threads may be interleaved in any way.
inductive WellFormed : List Operation → Prop
  | nil  : WellFormed []
  | step : WellFormed ops → Permits ops op → WellFormed (ops ++ [op])

section Steps

variable (thread : ThreadId) (ops : List Operation) (op : Operation)

@[simp]
theorem pending_nil : pending thread [] = none := rfl

@[simp]
theorem pending_append_singleton :
    pending thread (ops ++ [op]) = op.pending thread (pending thread ops) := by
  simp [pending]

@[simp]
theorem taken_nil : taken thread [] = [] := rfl

theorem taken_append (later : List Operation) :
    taken thread (ops ++ later) =
      (taken thread ops).filter (fun lock => ¬later.any (·.isRelease thread lock)) ++
        taken thread later := by
  induction ops
  case nil => rfl
  case cons op ops hi =>
    cases op
    case grant => grind [taken]
    all_goals exact hi

@[simp]
theorem taken_append_singleton :
    taken thread (ops ++ [op]) = op.taken thread (taken thread ops) := by
  rw [taken_append]
  cases op <;> simp [taken, Operation.taken, Operation.isRelease]
  case grant => split <;> simp
  case release t lock => by_cases t = thread <;> simp [*]

end Steps

-- The last operation of a well-formed trace was permitted.
theorem wellFormed_append_singleton {ops : List Operation} {op : Operation} :
    WellFormed (ops ++ [op]) ↔ WellFormed ops ∧ Permits ops op := by
  constructor
  case mp =>
    intro wf
    generalize h : ops ++ [op] = all at wf
    cases wf
    case nil => simp at h
    case step wf permits =>
      obtain ⟨rfl, rfl⟩ := List.append_singleton_inj.mp h
      exact ⟨wf, permits⟩
  case mpr =>
    rintro ⟨wf, permits⟩
    exact .step wf permits

namespace WellFormed

variable {ops : List Operation}

theorem of_prefix {earlier : List Operation} (wf : WellFormed ops) (hp : earlier <+: ops) :
    WellFormed earlier := by
  induction wf
  case nil => exact List.prefix_nil.mp hp ▸ .nil
  case step wf permits hi =>
    cases List.prefix_concat_iff.mp hp
    case inl he => exact he ▸ .step wf permits
    case inr hp => exact hi hp

-- No lock is taken twice, neither by one thread nor by two.
theorem taken_nodup (wf : WellFormed ops) (thread : ThreadId) : (taken thread ops).Nodup := by
  induction wf
  case nil => simp
  case step op wf permits hi =>
    cases permits <;> simp [Operation.taken, hi]
    case grant free =>
      split
      · exact List.Nodup.append hi (List.nodup_singleton _) (by simpa using free thread)
      · exact hi
    case release => split <;> simp [hi, List.Nodup.filter]

theorem taken_disjoint (wf : WellFormed ops) {lock : LockId} {t u : ThreadId}
    (ht : lock ∈ taken t ops) (hu : lock ∈ taken u ops) : t = u := by
  induction wf
  case nil => simp at ht
  case step op wf permits hi =>
    cases permits <;> simp [Operation.taken] at ht hu
    case grant free => grind
    case release => grind
    all_goals exact hi ht hu

end WellFormed

-- Two threads take a lock each and then ask for the lock of the other one.
def crossed : List Operation :=
  [.request .zero ⟨"A"⟩ ⟨1⟩, .grant .zero ⟨"A"⟩ ⟨1⟩ .zero,
   .request .zero ⟨"B"⟩ ⟨2⟩, .grant .zero ⟨"B"⟩ ⟨2⟩ .zero,
   .request .zero ⟨"A"⟩ ⟨2⟩, .request .zero ⟨"B"⟩ ⟨1⟩]

theorem crossed_wellFormed : WellFormed crossed := by
  have h₁ : WellFormed (crossed.take 1) := .step .nil (.request rfl)
  have h₂ : WellFormed (crossed.take 2) := .step h₁ (.grant rfl (by simp [crossed, taken]))
  have h₃ : WellFormed (crossed.take 3) := .step h₂ (.request rfl)
  have h₄ : WellFormed (crossed.take 4) := .step h₃ (.grant rfl (by simp [crossed, taken]))
  have h₅ : WellFormed (crossed.take 5) := .step h₄ (.request rfl)
  exact .step h₅ (.request rfl)

end PyVerify.Locks
