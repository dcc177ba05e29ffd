import Mathlib.Algebra.Group.Fin.Basic
import Mathlib.Data.Fin.VecNotation
import PyVerify.Proofs.Locks.Agreement
import PyVerify.Proofs.Locks.Finding
import PyVerify.Proofs.Locks.Search

namespace PyVerify.Locks

open LockGraph (run)

-- Threads that wait in a circle: each for a lock of the next one, and the last one for a lock of the
-- first one. They may be the same.
def LockGraph.Circle (g : LockGraph) (t : Fin (n + 1) → ThreadId) (l : Fin (n + 1) → LockId) : Prop :=
  ∀ i, WaitEdge.Genuine g.waiting g.holder ⟨t i, l i, t (i + 1)⟩

-- What holds at one place of a circle and is passed on holds at all places.
theorem forall_of_forall_add_one {P : Fin (n + 1) → Prop} {i : Fin (n + 1)} (h : P i)
    (hs : ∀ j, P j → P (j + 1)) (j : Fin (n + 1)) : P j := by
  have hd : ∀ d, P (i + d) := by
    intro d
    induction d using Fin.induction
    case zero => simpa using h
    case succ d hi => simpa [add_assoc] using hs _ hi
  simpa using hd (j - i)

namespace LockGraph

variable {g g₁ g₂ : LockGraph} {ops : List Operation}

namespace Circle

variable {t : Fin (n + 1) → ThreadId} {l : Fin (n + 1) → LockId}

theorem mono (c : g₂.Circle t l) (hw : ∀ u, g₂.waiting u ⊆ g₁.waiting u)
    (hh : ∀ lock u, g₂.holder.get? lock = some u → g₁.holder.get? lock = some u) : g₁.Circle t l :=
  fun i => ⟨hw _ (c i).waits, hh _ _ (c i).has⟩

theorem congr (c : g₂.Circle t l) (s : SameMaps g₁ g₂) : g₁.Circle t l :=
  c.mono (by simp [s.waiting]) (by simp [s.holder])

-- The way around a circle goes on forever.
theorem not_acc (c : g.Circle t l) (i : Fin (n + 1)) : ¬Acc (Blocks g.waiting g.holder) (t i) := by
  intro h
  generalize hu : t i = u at h
  induction h generalizing i
  case intro hi => exact hi (t (i + 1)) ⟨l i, hu ▸ c i⟩ (i + 1) rfl

-- A search from a thread on a circle never leaves it,
theorem lasso_on_circle {way : List ThreadId} {i : Fin (n + 1)} {edges : List WaitEdge}
    (c : g.Circle t l) (a : g.Agrees ops) (h : Lasso g.waiting g.holder way (t i) edges) :
    ∀ e ∈ edges, ∃ j, e = ⟨t j, l j, t (j + 1)⟩ := by
  generalize hu : t i = u at h
  induction h generalizing i
  case close gen _ =>
    subst hu
    obtain ⟨hl, hn⟩ := a.genuine_unique gen (c i)
    subst hl hn
    exact List.forall_mem_singleton.mpr ⟨i, rfl⟩
  case step gen _ _ hi =>
    subst hu
    obtain ⟨hl, hn⟩ := a.genuine_unique gen (c i)
    subst hl hn
    exact List.forall_mem_cons.mpr ⟨⟨i, rfl⟩, hi rfl⟩

-- and does not stop before it has been all around.
theorem mem_findCycle? {edges : List WaitEdge} {i : Fin (n + 1)} (c : g.Circle t l)
    (a : g.Agrees ops) (h : g.findCycle? (t i) = some edges) (e : WaitEdge) :
    e ∈ edges ↔ ∃ j, e = ⟨t j, l j, t (j + 1)⟩ := by
  have lasso := findCycle?_lasso h
  have of_waiter : ∀ j, t j ∈ edges.map WaitEdge.waiter → ⟨t j, l j, t (j + 1)⟩ ∈ edges := by
    intro j hj
    obtain ⟨⟨w, k, u⟩, he, hw⟩ := List.mem_map.mp hj
    subst hw
    obtain ⟨hl, hn⟩ := a.genuine_unique (lasso.genuine _ he) (c j)
    exact hl ▸ hn ▸ he
  have all : ∀ j, ⟨t j, l j, t (j + 1)⟩ ∈ edges := by
    refine forall_of_forall_add_one (of_waiter i lasso.mem_waiters) fun j hj => ?_
    exact of_waiter (j + 1) (holder_mem_waiters h _ hj)
  constructor
  case mp => exact c.lasso_on_circle a lasso e
  case mpr =>
    rintro ⟨j, rfl⟩
    exact all j

theorem of_stopWaiting {thread : ThreadId} {lock : LockId}
    (c : (g.stopWaiting thread lock).Circle t l) : g.Circle t l := by
  refine c.mono (fun u k hk => ?_) fun _ _ => id
  rw [waiting_stopWaiting] at hk
  split at hk
  case isTrue hu => exact hu ▸ List.mem_of_mem_filter hk
  case isFalse   => exact hk

theorem of_letGo {thread : ThreadId} {lock : LockId} (c : (g.letGo thread lock).Circle t l) :
    g.Circle t l := by
  refine c.mono (fun u => List.Subset.refl _) fun k u hu => ?_
  rw [holder_letGo] at hu
  split at hu
  case isTrue  => cases hu
  case isFalse => exact hu

-- Whoever has been granted a lock waits for nothing.
theorem of_take {thread : ThreadId} {lock : LockId} (c : (g.take thread lock).Circle t l)
    (waits : g.waiting thread = [lock]) : g.Circle t l := by
  have hn : ∀ i, t i ≠ thread := by
    intro i hi
    simpa [hi, waits] using (c i).waits
  refine fun i => ⟨by simpa [hn] using (c i).waits, ?_⟩
  have has := (c i).has
  rw [holder_take] at has
  split at has
  case isTrue  => exact absurd (Option.some.inj has).symm (hn (i + 1))
  case isFalse => exact has

theorem of_await {thread : ThreadId} {lock : LockId} (c : (g.await thread lock).Circle t l)
    (idle : g.waiting thread = []) : g.Circle t l ∨ ∃ i, t i = thread ∧ l i = lock := by
  by_cases h : ∃ i, t i = thread
  case pos =>
    obtain ⟨i, hi⟩ := h
    exact .inr ⟨i, hi, by simpa [hi, idle, insertLock] using (c i).waits⟩
  case neg =>
    have hn : ∀ i, t i ≠ thread := by simpa using h
    exact .inl fun i => ⟨by simpa [hn] using (c i).waits, (c i).has⟩

-- Only a request completes a circle.
theorem of_apply {op : Operation} (c : (g.apply op).Circle t l) (a : g.Agrees ops)
    (p : Permits ops op) : g.Circle t l ∨ ∃ time i, op = .request time (t i) (l i) := by
  cases p
  case request idle =>
    cases (c.congr (request_records ..).toSameMaps).of_await (by simp [a.waiting, idle])
    case inl c => exact .inl c
    case inr h =>
      obtain ⟨i, rfl, rfl⟩ := h
      exact .inr ⟨_, i, rfl⟩
  case grant waits _ =>
    exact .inl <| (c.congr (grant_records ..).toSameMaps).of_take (by simp [a.waiting, waits])
  case deny           => exact .inl (c.congr (deny_records ..).toSameMaps).of_stopWaiting
  case release        => exact .inl (c.congr (release_records ..).toSameMaps).of_letGo
  case registerLock   => exact .inl (c.congr (registerLock_sameMaps ..))
  case registerThread => exact .inl (c.congr (registerThread_sameMaps ..))
  case rehash         => exact .inl (c.congr (rehash_sameMaps ..))

end Circle
end LockGraph

variable {ops : List Operation}

open LockGraph (Circle)

-- A request that leaves its thread on a circle records the circle, unless it has been recorded before.
theorem LockGraph.Circle.recorded_edges {t : Fin (n + 1) → ThreadId} {l : Fin (n + 1) → LockId}
    {time : Binary64} {i : Fin (n + 1)} (wf : WellFormed ops) (idle : pending (t i) ops = none)
    (c : (run (ops ++ [.request time (t i) (l i)])).Circle t l) :
    ∃ edges : List WaitEdge, (∀ e, e ∈ edges ↔ ∃ j, e = ⟨t j, l j, t (j + 1)⟩) ∧ edges.Nodup ∧
      ∃ hazard, Recorded (ops ++ [.request time (t i) (l i)]) .circularWait (edges.map WaitEdge.lock)
        hazard := by
  rw [LockGraph.run_append_singleton] at c
  let g := (run ops).await (t i) (l i)
  have a : g.Agrees (ops ++ [.request time (t i) (l i)]) := wf.agrees.await idle
  have cg : g.Circle t l := c.congr (LockGraph.request_records ..).toSameMaps
  cases h : g.findCycle? (t i)
  case none => exact absurd (findCycle?_acc h) (cg.not_acc i)
  case some edges =>
    have hr : (.circularWait, LockGraph.sortLocks (edges.map WaitEdge.lock)) ∈
        ((run ops).request time (t i) (l i)).1.reported :=
      LockGraph.mem_reported_request.mpr <| .inr ⟨edges, h, rfl⟩
    have hn := (findCycle?_lasso h).waiters_nodup List.mem_cons_self
    refine ⟨edges, cg.mem_findCycle? a h, List.Nodup.of_map _ hn, ?_⟩
    rw [Recorded.exists_iff, LockGraph.run_append_singleton]
    exact hr

theorem LockGraph.Circle.recorded {t : Fin (n + 1) → ThreadId} {l : Fin (n + 1) → LockId}
    {time : Binary64} {i : Fin (n + 1)} (wf : WellFormed ops) (idle : pending (t i) ops = none)
    (c : (run (ops ++ [.request time (t i) (l i)])).Circle t l) :
    ∃ locks hazard, (∀ lock, lock ∈ locks ↔ ∃ j, l j = lock) ∧
      Recorded (ops ++ [.request time (t i) (l i)]) .circularWait locks hazard := by
  obtain ⟨edges, he, _, hazard, hr⟩ := c.recorded_edges wf idle
  refine ⟨edges.map WaitEdge.lock, hazard, fun lock => ?_, hr⟩
  simp only [List.mem_map, he]
  constructor
  case mp =>
    rintro ⟨_, ⟨j, rfl⟩, hl⟩
    exact ⟨j, hl⟩
  case mpr =>
    rintro ⟨j, hl⟩
    exact ⟨_, ⟨j, rfl⟩, hl⟩

-- No deadlock is missed: threads that wait in a circle have been reported, with just the locks of the
-- circle, by the request that completed it.
theorem circle_recorded {t : Fin (n + 1) → ThreadId} {l : Fin (n + 1) → LockId}
    (wf : WellFormed ops) (c : (run ops).Circle t l) :
    ∃ earlier time i later,
      ops = earlier ++ .request time (t i) (l i) :: later ∧
      ¬(run earlier).Circle t l ∧ (run (earlier ++ [.request time (t i) (l i)])).Circle t l ∧
      ∃ locks hazard, (∀ lock, lock ∈ locks ↔ ∃ j, l j = lock) ∧
        Recorded (earlier ++ [.request time (t i) (l i)]) .circularWait locks hazard ∧
        Recorded ops .circularWait locks hazard := by
  induction wf
  case nil => exact absurd (c 0).has (by simp [LockGraph.run_nil, LockGraph.empty])
  case step ops op wf p hi =>
    by_cases h : (run ops).Circle t l
    case pos =>
      obtain ⟨earlier, time, i, later, ho, hn, hc, locks, hazard, hl, hr₁, hr₂⟩ := hi h
      refine ⟨earlier, time, i, later ++ [op], by simp [ho], hn, hc, locks, hazard, hl, hr₁, ?_⟩
      exact hr₂.mono [op]
    case neg =>
      obtain ⟨time, i, ho⟩ : ∃ time i, op = .request time (t i) (l i) := by
        rw [LockGraph.run_append_singleton] at c
        exact (c.of_apply wf.agrees p).resolve_left h
      subst ho
      have idle : pending (t i) ops = none := by
        cases p
        assumption
      obtain ⟨locks, hazard, hl, hr⟩ := c.recorded wf idle
      exact ⟨ops, time, i, [], rfl, h, c, locks, hazard, hl, hr, hr⟩

theorem crossed_circle : (run crossed).Circle ![⟨"A"⟩, ⟨"B"⟩] ![⟨2⟩, ⟨1⟩] := by
  have a := crossed_wellFormed.agrees
  refine Fin.forall_fin_two.mpr ⟨?_, ?_⟩
  · exact a.genuine_iff.mpr ⟨rfl, by decide⟩
  · exact a.genuine_iff.mpr ⟨rfl, by decide⟩

theorem crossed_circle_recorded :
    WellFormed crossed ∧ (run crossed).Circle ![⟨"A"⟩, ⟨"B"⟩] ![⟨2⟩, ⟨1⟩] ∧
    ∃ locks hazard, (∀ lock, lock ∈ locks ↔ lock = ⟨2⟩ ∨ lock = ⟨1⟩) ∧
      Recorded crossed .circularWait locks hazard := by
  obtain ⟨_, _, _, _, _, _, _, locks, hazard, hl, _, hr⟩ :=
    circle_recorded crossed_wellFormed crossed_circle
  refine ⟨crossed_wellFormed, crossed_circle, locks, hazard, fun lock => ?_, hr⟩
  simp [hl, Fin.exists_fin_two, eq_comm]

end PyVerify.Locks
