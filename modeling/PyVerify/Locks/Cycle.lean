import PyVerify.Locks.Hazard
import PyVerify.Locks.Table

/-!
# Circles of waiting threads

A thread that waits for a lock waits for the thread that holds it. `findCycle?` follows these edges
depth first and stops at the first edge that leads back to a thread on the way.
-/

namespace PyVerify.Locks

/-- A thread waits for a lock that a thread holds. -/
structure WaitEdge where
  waiter : ThreadId
  lock : LockId
  holder : ThreadId
deriving DecidableEq, Repr

/-- The number of holders that are not on a way. -/
def holdersOff (holder : Table LockId ThreadId) (way : List ThreadId) : Nat :=
  holder.values.countP fun t => t ∉ way

theorem holdersOff_cons_lt {holder : Table LockId ThreadId} {way : List ThreadId} {lock : LockId}
    {thread : ThreadId} (h : holder.get? lock = some thread) (off : thread ∉ way) :
    holdersOff holder (thread :: way) < holdersOff holder way := by
  have mem := Table.mem_values h
  unfold holdersOff
  generalize holder.values = threads at mem
  have le (ts : List ThreadId) : ts.countP (fun t => t ∉ thread :: way) ≤ ts.countP (fun t => t ∉ way) :=
    List.countP_mono_left (by simp +contextual)
  induction threads with
  | nil => simp at mem
  | cons t ts ih =>
    rcases List.mem_cons.1 mem with rfl | mem
    · rw [List.countP_cons_of_neg (by simp), List.countP_cons_of_pos (by simpa using off)]
      exact Nat.lt_succ_of_le (le ts)
    · have := ih mem
      simp only [List.countP_cons]
      grind

variable (waiting : ThreadId → List LockId) (holder : Table LockId ThreadId)

/--
Follows the edges of the last thread on the way to the locks that are left, and gives the edges up
to the first one that leads back, or none, with all threads that were visited.
-/
def follow (way visited : List ThreadId) (thread : ThreadId) :
    List LockId → Option (List WaitEdge) × List ThreadId
  | [] => (none, visited)
  | lock :: rest =>
    match _h : holder.get? lock with
    | none => follow way visited thread rest
    | some next =>
      let edge : WaitEdge := ⟨thread, lock, next⟩
      if next ∈ way then (some [edge], visited)
      else if next ∈ visited then follow way visited thread rest
      else
        match follow (next :: way) (next :: visited) next (waiting next) with
        | (some edges, visited) => (some (edge :: edges), visited)
        | (none, visited) => follow way visited thread rest
termination_by locks => (holdersOff holder way, locks.length)
decreasing_by
  · exact .right _ (Nat.lt_succ_self _)
  · exact .right _ (Nat.lt_succ_self _)
  · exact .left _ _ (holdersOff_cons_lt ‹_› ‹_›)
  · exact .right _ (Nat.lt_succ_self _)

/-- The edges from a thread to the first edge that leads back to a thread on the way. -/
def findCycle? (start : ThreadId) : Option (List WaitEdge) :=
  (follow waiting holder [start] [start] start (waiting start)).1

end PyVerify.Locks
