import Mathlib.Data.List.Permutation
import PyVerify.Proofs.Locks.Agreement

namespace PyVerify.Locks

open LockGraph (run)

variable {ops : List Operation} {edges : List WaitEdge}

-- All waiters wait for locks of each other.
structure Stuck (ops : List Operation) (edges : List WaitEdge) : Prop where
  pending : ∀ e ∈ edges, pending e.waiter ops = some e.lock
  taken   : ∀ e ∈ edges, e.lock ∈ taken e.holder ops
  closed  : ∀ e ∈ edges, ∃ f ∈ edges, f.waiter = e.holder

namespace Stuck

theorem ne_of_idle (s : Stuck ops edges) {thread : ThreadId} (idle : Locks.pending thread ops = none) :
    ∀ e ∈ edges, e.waiter ≠ thread ∧ e.holder ≠ thread := by
  have hw : ∀ e ∈ edges, e.waiter ≠ thread := by
    intro e he ht
    have := s.pending e he
    simp [ht, idle] at this
  intro e he
  obtain ⟨f, hf, hh⟩ := s.closed e he
  exact ⟨hw e he, hh ▸ hw f hf⟩

-- The lock of a waiter is not free.
theorem ne_of_free (s : Stuck ops edges) {thread : ThreadId} {lock : LockId}
    (waits : Locks.pending thread ops = some lock) (free : ∀ t, lock ∉ Locks.taken t ops) :
    ∀ e ∈ edges, e.waiter ≠ thread := by
  intro e he ht
  have hl : lock = e.lock := by
    have := s.pending e he
    simpa [ht, waits] using this
  exact free e.holder (hl ▸ s.taken e he)

-- Only a denial of one of their requests lets the waiters go.
theorem step {op : Operation} (s : Stuck ops edges) (p : Permits ops op)
    (nd : ∀ e ∈ edges, ∀ time, op ≠ .deny time e.waiter e.lock) : Stuck (ops ++ [op]) edges := by
  refine ⟨fun e he => ?_, fun e he => ?_, s.closed⟩
  all_goals
    have hp := s.pending e he
    have ht := s.taken e he
    cases p
  case refine_1.request idle     => simp [Operation.pending, hp, (s.ne_of_idle idle e he).left.symm]
  case refine_1.grant waits free => simp [Operation.pending, hp, (s.ne_of_free waits free e he).symm]
  case refine_1.deny thread _ _ waits =>
    have hn : thread ≠ e.waiter := by
      rintro rfl
      obtain rfl := Option.some.inj (waits.symm.trans hp)
      exact nd e he _ rfl
    simp [Operation.pending, hp, hn]
  case refine_2.release idle     => simp [Operation.taken, ht, (s.ne_of_idle idle e he).right.symm]
  case refine_2.grant =>
    simp [Operation.taken]
    split <;> simp [ht]
  all_goals simp_all [Operation.pending, Operation.taken]

theorem not_granted {op : Operation} (s : Stuck ops edges) (p : Permits ops op) {e : WaitEdge}
    (he : e ∈ edges) (time waited : Binary64) : op ≠ .grant time e.waiter e.lock waited := by
  intro h
  subst h
  cases p
  case grant free waits => exact s.ne_of_free waits free e he rfl

-- Threads that are stuck stay so for as long as none of their requests is denied.
theorem append_of_undenied {later : List Operation} (s : Stuck ops edges)
    (wf : WellFormed (ops ++ later))
    (nd : ∀ e ∈ edges, ∀ time, .deny time e.waiter e.lock ∉ later) :
    Stuck (ops ++ later) edges ∧
    ∀ e ∈ edges, ∀ time waited, .grant time e.waiter e.lock waited ∉ later := by
  induction later using List.reverseRecOn
  case nil => simpa using s
  case append_singleton later op hi =>
    rw [←List.append_assoc] at wf ⊢
    obtain ⟨wf, p⟩ := wellFormed_append_singleton.mp wf
    obtain ⟨hs, hn⟩ := hi wf fun e he time hm => nd e he time (List.mem_append_left _ hm)
    refine ⟨hs.step p fun e he time ho => nd e he time (by simp [ho]), fun e he time waited hm => ?_⟩
    cases List.mem_append.mp hm
    case inl hm => exact hn e he time waited hm
    case inr hm => exact hs.not_granted p he time waited (List.mem_singleton.mp hm).symm

theorem append {later : List Operation} (s : Stuck ops edges) (wf : WellFormed (ops ++ later))
    (nd : ∀ op ∈ later, ¬op.isDeny) :
    Stuck (ops ++ later) edges ∧
    ∀ e ∈ edges, ∀ time waited, .grant time e.waiter e.lock waited ∉ later :=
  s.append_of_undenied wf fun _ _ _ hm => nd _ hm rfl

end Stuck

namespace LockGraph

variable {g g₁ g₂ : LockGraph}

theorem SameMaps.findCycle? (s : SameMaps g₁ g₂) (start : ThreadId) :
    g₂.findCycle? start = g₁.findCycle? start := by
  simp only [LockGraph.findCycle?, funext s.waiting, s.holder]

theorem Records.circularWait (r : Records g₁ g₂) (edges : List WaitEdge) :
    g₂.circularWait edges = g₁.circularWait edges := by
  have ht : g₂.edgeText = g₁.edgeText := by
    funext e
    simp [edgeText, r.lockName, r.threadName]
  simp [LockGraph.circularWait, ht, r.lockName, r.threadName]

theorem Agrees.stuck {start : ThreadId} (a : g.Agrees ops) (h : g.findCycle? start = some edges) :
    Stuck ops edges where
  pending e he  := (a.genuine_iff.mp ((findCycle?_lasso h).genuine e he)).left
  taken e he    := (a.genuine_iff.mp ((findCycle?_lasso h).genuine e he)).right
  closed e he   := List.mem_map.mp (holder_mem_waiters h e he)

-- The hazard that a request records tells of the circle that has been found.
theorem request_hazard {time : Binary64} {thread : ThreadId} {lock : LockId} {hazard : Hazard}
    (h : (g.request time thread lock).1.hazards = g.hazards ++ [hazard]) :
    ∃ edges, (g.await thread lock).findCycle? thread = some edges ∧ hazard = g.circularWait edges := by
  rw [request_eq] at h
  split at h
  case h_1 => simp [log, await] at h
  case h_2 edges he =>
    unfold report at h
    dsimp only at h
    split at h
    case isTrue  => simp [log, await] at h
    case isFalse => exact ⟨edges, he, by simpa [log, await] using h.symm⟩

end LockGraph

-- No alarm is false as long as no request is denied: threads that a circular wait is reported for
-- never get the locks that they wait for, whatever the other threads do.
theorem blocked_for_good {time : Binary64} {thread : ThreadId} {lock : LockId} {hazard : Hazard}
    (wf : WellFormed (ops ++ [.request time thread lock]))
    (h : (run (ops ++ [.request time thread lock])).hazards = (run ops).hazards ++ [hazard]) :
    ∃ edges, (run (ops ++ [.request time thread lock])).findCycle? thread = some edges ∧
      hazard = (run (ops ++ [.request time thread lock])).circularWait edges ∧
      ∀ e ∈ edges, pending e.waiter (ops ++ [.request time thread lock]) = some e.lock ∧
        ∀ later, WellFormed (ops ++ [.request time thread lock] ++ later) →
          (∀ op ∈ later, ¬op.isDeny) → ∀ time waited, .grant time e.waiter e.lock waited ∉ later := by
  rw [LockGraph.run_append_singleton] at h
  obtain ⟨edges, he, hh⟩ := LockGraph.request_hazard h
  have r := LockGraph.request_records (run ops) time thread lock
  have hf : (run (ops ++ [.request time thread lock])).findCycle? thread = some edges := by
    rw [LockGraph.run_append_singleton]
    exact (r.findCycle? thread).trans he
  have s := wf.agrees.stuck hf
  refine ⟨edges, hf, ?_, fun e he => ⟨s.pending e he, fun later wf nd => ?_⟩⟩
  · rw [LockGraph.run_append_singleton]
    exact hh.trans (r.circularWait edges).symm
  · exact (s.append wf nd).right e he

theorem crossed_hazards :
    (run crossed).hazards = (run (crossed.take 5)).hazards ++
      [{ kind := .circularWait
         threads := ["B", "A"]
         locks := ["Lock#1", "Lock#2"]
         message := "circular wait: B waits for Lock#1 held by A -> A waits for Lock#2 held by B" }] := by
  cbv

theorem crossed_blocked_for_good :
    WellFormed crossed ∧ (run crossed).hazards.length = (run (crossed.take 5)).hazards.length + 1 ∧
    ∃ edges, (run crossed).findCycle? ⟨"B"⟩ = some edges ∧
      ∀ e ∈ edges, pending e.waiter crossed = some e.lock ∧
        ∀ later, WellFormed (crossed ++ later) → (∀ op ∈ later, ¬op.isDeny) →
          ∀ time waited, .grant time e.waiter e.lock waited ∉ later := by
  have wf : WellFormed (crossed.take 5 ++ [.request .zero ⟨"B"⟩ ⟨1⟩]) := crossed_wellFormed
  obtain ⟨edges, hf, _, hb⟩ := blocked_for_good wf crossed_hazards
  exact ⟨crossed_wellFormed, by simp [crossed_hazards], edges, hf, hb⟩

end PyVerify.Locks
