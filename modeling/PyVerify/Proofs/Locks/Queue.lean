import Mathlib.Data.List.Chain
import PyVerify.Proofs.Locks.Alarm
import PyVerify.Proofs.Locks.CircularWait

namespace PyVerify.Locks

open LockGraph (run)
open Relation

-- Edges around a circle: each leads to the waiter of the next one, and the last one to that of the
-- first one.
structure Closed (edges : List WaitEdge) : Prop where
  linked : edges.IsChain fun e f => e.holder = f.waiter
  closes : ∃ first last, edges.head? = some first ∧ edges.getLast? = some last ∧
    last.holder = first.waiter

section Edges

variable {edges : List WaitEdge} {first last : WaitEdge}

theorem holders_of_linked (h : edges.IsChain fun e f => e.holder = f.waiter)
    (hl : edges.getLast? = some last) :
    edges.map WaitEdge.holder = (edges.map WaitEdge.waiter).tail ++ [last.holder] := by
  induction edges
  case nil => simp at hl
  case cons e edges hi =>
    cases edges
    case nil => simp_all
    case cons f edges =>
      obtain ⟨he, h⟩ := List.isChain_cons_cons.mp h
      have := hi h (by simpa using hl)
      simp_all

theorem transGen_of_linked {waiting : ThreadId → List LockId} {holder : Table LockId ThreadId}
    (gen : ∀ e ∈ edges, e.Genuine waiting holder)
    (h : edges.IsChain fun e f => e.holder = f.waiter) (hf : edges.head? = some first)
    (hl : edges.getLast? = some last) :
    TransGen (WaitsFor waiting holder) first.waiter last.holder := by
  induction edges generalizing first
  case nil => simp at hl
  case cons e edges hi =>
    obtain ⟨ge, gen⟩ := List.forall_mem_cons.mp gen
    have w : WaitsFor waiting holder e.waiter e.holder := ⟨e.lock, ge⟩
    cases edges
    case nil => simp_all [TransGen.single]
    case cons f edges =>
      obtain ⟨he, h⟩ := List.isChain_cons_cons.mp h
      obtain rfl : e = first := by simpa using hf
      exact .head (he ▸ w) (hi gen h rfl (by simpa using hl))

-- Whatever can be reached from a thread on a cycle leads back to it if every thread waits for one thread
-- at most.
theorem returns_of_transGen {r : ThreadId → ThreadId → Prop} (unique : Relator.RightUnique r)
    {t u : ThreadId} (c : TransGen r t t) (w : ReflTransGen r t u) : ReflTransGen r u t := by
  induction w
  case refl => exact .refl
  case tail w hi =>
    obtain ⟨v, w', hv⟩ := TransGen.head'_iff.mp (c.trans_right hi)
    exact unique w w' ▸ hv

-- A lock has one holder, so that edges to different holders are about different locks.
theorem locks_nodup {waiting : ThreadId → List LockId} {holder : Table LockId ThreadId}
    (gen : ∀ e ∈ edges, e.Genuine waiting holder) (hn : (edges.map WaitEdge.holder).Nodup) :
    (edges.map WaitEdge.lock).Nodup := by
  have he := List.Nodup.of_map _ hn
  rw [List.nodup_map_iff_inj_on he] at hn ⊢
  intro e he f hf hl
  refine hn e he f hf (Option.some.inj ?_)
  rw [←(gen e he).has, ←(gen f hf).has, hl]

end Edges

namespace Closed

variable {edges : List WaitEdge}

theorem holders_perm (c : Closed edges) :
    (edges.map WaitEdge.holder).Perm (edges.map WaitEdge.waiter) := by
  obtain ⟨first, last, hf, hl, hh⟩ := c.closes
  rw [holders_of_linked c.linked hl]
  obtain ⟨edges, rfl⟩ := List.head?_eq_some_iff.mp hf
  simp [hh]

-- The edges in the order of their places on the circle.
theorem exists_circle {g : LockGraph} (c : Closed edges) (gen : ∀ e ∈ edges, e.Genuine g.waiting g.holder) :
    ∃ n, ∃ (t : Fin (n + 1) → ThreadId) (l : Fin (n + 1) → LockId), g.Circle t l ∧
      ∀ e, e ∈ edges ↔ ∃ j, e = ⟨t j, l j, t (j + 1)⟩ := by
  obtain ⟨first, last, hf, hl, hh⟩ := c.closes
  obtain ⟨rest, rfl⟩ := List.head?_eq_some_iff.mp hf
  let edge (j : Fin (rest.length + 1)) : WaitEdge := (first :: rest).get j
  have next : ∀ j, (edge j).holder = (edge (j + 1)).waiter := by
    refine Fin.lastCases ?_ fun j => ?_
    · have he : edge (Fin.last _) = last := by simpa [edge, List.getLast?_eq_getElem?] using hl
      rw [he, Fin.last_add_one]
      exact hh
    · rw [Fin.coeSucc_eq_succ]
      exact List.isChain_iff_getElem.mp c.linked j (by simp)
  have he : ∀ j, ⟨(edge j).waiter, (edge j).lock, (edge (j + 1)).waiter⟩ = edge j :=
    fun j => by rw [←next]
  refine ⟨rest.length, fun j => (edge j).waiter, fun j => (edge j).lock, fun j => ?_, fun e => ?_⟩
  · rw [he]
    exact gen _ (List.get_mem ..)
  · simp only [he]
    rw [List.mem_iff_get]
    exact exists_congr fun j => eq_comm

end Closed

-- A chain of edges from a thread: first the queue, threads that wait in a row, then the circle that the
-- queue leads to.
structure Queued (waiting : ThreadId → List LockId) (holder : Table LockId ThreadId)
    (start : ThreadId) (queue circle : List WaitEdge) : Prop where
  lasso   : IsLasso waiting holder start (queue ++ circle)
  closed  : Closed circle

namespace Queued

variable {waiting : ThreadId → List LockId} {holder : Table LockId ThreadId}
variable {start : ThreadId} {queue circle : List WaitEdge}

theorem of_isLasso {edges : List WaitEdge} (h : IsLasso waiting holder start edges) :
    ∃ queue circle, edges = queue ++ circle ∧ Queued waiting holder start queue circle := by
  obtain ⟨last, hl, first, hf, hh⟩ := h.returns
  obtain ⟨queue, rest, rfl⟩ := List.append_of_mem hf
  refine ⟨queue, first :: rest, rfl, h, ?_, first, last, rfl, ?_, hh.symm⟩
  · exact h.linked.right_of_append
  · simpa using hl

theorem genuine_circle (q : Queued waiting holder start queue circle) :
    ∀ e ∈ circle, e.Genuine waiting holder :=
  fun e he => q.lasso.genuine e (List.mem_append_right _ he)

theorem circle_nodup (q : Queued waiting holder start queue circle) :
    (circle.map WaitEdge.waiter).Nodup := by
  have hn := q.lasso.nodup
  rw [List.map_append] at hn
  exact hn.of_append_right

-- No lock of the circle is listed twice.
theorem circle_locks_nodup (q : Queued waiting holder start queue circle) :
    (circle.map WaitEdge.lock).Nodup :=
  locks_nodup q.genuine_circle (q.closed.holders_perm.nodup_iff.mpr q.circle_nodup)

-- Of all locks only the last one can be listed twice.
theorem front_locks_nodup (q : Queued waiting holder start queue circle) :
    ((queue ++ circle).dropLast.map WaitEdge.lock).Nodup := by
  obtain ⟨last, hl, _⟩ := q.lasso.returns
  refine locks_nodup (fun e he => q.lasso.genuine e (List.dropLast_subset _ he)) ?_
  rw [List.map_dropLast, holders_of_linked q.lasso.linked hl, List.dropLast_concat]
  exact q.lasso.nodup.tail

-- A thread of the queue is not on the circle.
theorem start_not_mem (q : Queued waiting holder start queue circle) (hq : queue ≠ []) :
    start ∉ circle.map WaitEdge.waiter := by
  obtain ⟨e, queue, rfl⟩ := List.exists_cons_of_ne_nil hq
  obtain ⟨first, hf, rfl⟩ := q.lasso.starts
  obtain rfl : e = first := by simpa using hf
  have hn := q.lasso.nodup
  simp at hn ⊢
  tauto

-- There is no way out of the circle if every thread waits for one thread at most.
theorem mem_circle (q : Queued waiting holder start queue circle)
    (unique : Relator.RightUnique (WaitsFor waiting holder)) {t u : ThreadId}
    (ht : t ∈ circle.map WaitEdge.waiter) (w : ReflTransGen (WaitsFor waiting holder) t u) :
    u ∈ circle.map WaitEdge.waiter := by
  induction w
  case refl => exact ht
  case tail w hi =>
    obtain ⟨e, he, rfl⟩ := List.mem_map.mp hi
    rw [unique w ⟨e.lock, q.genuine_circle e he⟩]
    exact q.closed.holders_perm.mem_iff.mp (List.mem_map_of_mem he)

-- The chain returns to its first thread if and only if the thread waits for itself.
theorem queue_eq_nil_iff (q : Queued waiting holder start queue circle)
    (unique : Relator.RightUnique (WaitsFor waiting holder)) :
    queue = [] ↔ TransGen (WaitsFor waiting holder) start start := by
  obtain ⟨first, last, hf, hl, hh⟩ := q.closed.closes
  obtain ⟨front, hs, rfl⟩ := q.lasso.starts
  constructor
  case mp =>
    rintro rfl
    obtain rfl : first = front := Option.some.inj (hf.symm.trans hs)
    exact hh ▸ transGen_of_linked q.genuine_circle q.closed.linked hf hl
  case mpr =>
    intro c
    by_contra hq
    have hl' : (queue ++ circle).getLast? = some last := by simp [hl]
    have w := transGen_of_linked q.lasso.genuine q.lasso.linked hs hl'
    have hm : last.holder ∈ circle.map WaitEdge.waiter :=
      hh ▸ List.mem_map_of_mem (List.mem_of_mem_head? hf)
    exact q.start_not_mem hq (q.mem_circle unique hm (returns_of_transGen unique c w.to_reflTransGen))

end Queued

theorem LockGraph.Agrees.waitsFor_unique {g : LockGraph} {ops : List Operation} (a : g.Agrees ops) :
    Relator.RightUnique (WaitsFor g.waiting g.holder) := by
  rintro t u v ⟨l, hl⟩ ⟨k, hk⟩
  exact (a.genuine_unique hl hk).right

variable {ops : List Operation}

-- A circle of waiting threads has been reported, with just the locks of the circle.
theorem LockGraph.Circle.recorded_of_run {t : Fin (n + 1) → ThreadId} {l : Fin (n + 1) → LockId}
    (wf : WellFormed ops) (c : (run ops).Circle t l) :
    ∃ edges : List WaitEdge, (∀ e, e ∈ edges ↔ ∃ j, e = ⟨t j, l j, t (j + 1)⟩) ∧ edges.Nodup ∧
      ∃ hazard, Recorded ops .circularWait (edges.map WaitEdge.lock) hazard := by
  induction wf
  case nil => exact absurd (c 0).has (by simp [LockGraph.empty])
  case step ops op wf p hi =>
    have c' := c
    rw [LockGraph.run_append_singleton] at c'
    obtain h | ⟨time, i, rfl⟩ := c'.of_apply wf.agrees p
    · obtain ⟨edges, he, hn, hazard, hr⟩ := hi h
      exact ⟨edges, he, hn, hazard, hr.mono [op]⟩
    · cases p
      case request idle => exact c.recorded_edges wf idle

theorem Closed.recorded {circle : List WaitEdge} (c : Closed circle) (wf : WellFormed ops)
    (gen : ∀ e ∈ circle, e.Genuine (run ops).waiting (run ops).holder) (hn : circle.Nodup) :
    ∃ hazard, Recorded ops .circularWait (circle.map WaitEdge.lock) hazard := by
  obtain ⟨n, t, l, hc, he⟩ := c.exists_circle gen
  obtain ⟨edges, he', hn', hr⟩ := hc.recorded_of_run wf
  have hp : edges.Perm circle := (List.perm_ext_iff_of_nodup hn' hn).mpr fun e => by rw [he, he']
  rw [Recorded.exists_iff] at hr ⊢
  rwa [←LockGraph.sortLocks_eq_iff.mpr (hp.map WaitEdge.lock)]

-- A request of a thread that joins a queue does not complete the circle that the queue leads to.
theorem Queued.recorded {time : Binary64} {thread : ThreadId} {lock : LockId}
    {queue circle : List WaitEdge} (wf : WellFormed (ops ++ [.request time thread lock]))
    (q : Queued (run (ops ++ [.request time thread lock])).waiting
      (run (ops ++ [.request time thread lock])).holder thread queue circle) (hq : queue ≠ []) :
    ∃ hazard, Recorded ops .circularWait (circle.map WaitEdge.lock) hazard := by
  obtain ⟨wf', p⟩ := wellFormed_append_singleton.mp wf
  obtain ⟨n, t, l, hc, he⟩ := q.closed.exists_circle q.genuine_circle
  rw [LockGraph.run_append_singleton] at hc
  obtain hc | ⟨_, i, ho⟩ := hc.of_apply wf'.agrees p
  · refine q.closed.recorded wf' (fun e hm => ?_) (.of_map _ q.circle_nodup)
    obtain ⟨j, rfl⟩ := (he e).mp hm
    exact hc j
  · cases ho
    exact absurd (List.mem_map_of_mem ((he _).mpr ⟨i, rfl⟩)) (q.start_not_mem hq)

-- What a circular wait tells of: a queue in front of a circle. The request that is reported belongs to
-- the circle if and only if there is no queue. If there is one, then the circle has been reported before
-- it was joined.
theorem circular_wait_queued {before : List Hazard} {hazard : Hazard} (wf : WellFormed ops)
    (h : before ++ [hazard] <+: (run ops).hazards) (hk : hazard.kind = .circularWait) :
    ∃ earlier time thread lock later queue circle,
      let g := run (earlier ++ [.request time thread lock])
      ops = earlier ++ .request time thread lock :: later ∧ (run earlier).hazards = before ∧
      Alarm earlier time thread lock (queue ++ circle) hazard ∧
      Queued g.waiting g.holder thread queue circle ∧
      (circle.map WaitEdge.lock).Nodup ∧
      ((queue ++ circle).dropLast.map WaitEdge.lock).Nodup ∧
      (queue = [] ↔ TransGen (WaitsFor g.waiting g.holder) thread thread) ∧
      (queue ≠ [] → ∃ known ∈ before,
        Recorded earlier .circularWait (circle.map WaitEdge.lock) known) := by
  obtain ⟨earlier, time, thread, lock, later, edges, rfl, rfl, alarm⟩ := exists_alarm h hk
  have wf' : WellFormed (earlier ++ [.request time thread lock]) :=
    wf.of_prefix (by simp)
  obtain ⟨queue, circle, rfl, q⟩ := Queued.of_isLasso (findCycle?_isLasso alarm.found)
  refine ⟨earlier, time, thread, lock, later, queue, circle, rfl, rfl, alarm, q,
    q.circle_locks_nodup, q.front_locks_nodup, q.queue_eq_nil_iff wf'.agrees.waitsFor_unique, ?_⟩
  intro hq
  obtain ⟨known, hr⟩ := q.recorded wf' hq
  exact ⟨known, hr.mem_hazards, hr⟩

-- A third thread asks for a lock of one of two threads that wait for each other.
def queued : List Operation :=
  crossed ++ [.request .zero ⟨"C"⟩ ⟨1⟩]

theorem queued_wellFormed : WellFormed queued :=
  .step crossed_wellFormed (.request rfl)

def queuedChain : List WaitEdge :=
  [⟨⟨"C"⟩, ⟨1⟩, ⟨"A"⟩⟩, ⟨⟨"A"⟩, ⟨2⟩, ⟨"B"⟩⟩, ⟨⟨"B"⟩, ⟨1⟩, ⟨"A"⟩⟩]

def queuedHazard : Hazard :=
  { kind := .circularWait
    threads := ["C", "A", "B"]
    locks := ["Lock#1", "Lock#2", "Lock#1"]
    message :=
      "circular wait: C waits for Lock#1 held by A -> A waits for Lock#2 held by B" ++
        " -> B waits for Lock#1 held by A" }

theorem queued_hazards : (run queued).hazards = (run crossed).hazards ++ [queuedHazard] := by
  cbv

theorem queued_findCycle? : (run queued).findCycle? ⟨"C"⟩ = some queuedChain := by
  cbv

theorem queuedChain_not_closed : ¬Closed queuedChain := by
  rintro ⟨_, first, last, hf, hl, hh⟩
  cases hf
  cases hl
  simp at hh

-- It gets a report of its own. The chain does not return to it, and one lock is listed twice.
theorem queued_not_closed :
    WellFormed queued ∧ (run queued).hazards = (run crossed).hazards ++ [queuedHazard] ∧
    (run queued).findCycle? ⟨"C"⟩ = some queuedChain ∧
    queuedHazard = (run queued).circularWait queuedChain ∧
    ¬Closed queuedChain ∧ ¬(queuedChain.map WaitEdge.lock).Nodup ∧ ¬queuedHazard.locks.Nodup :=
  ⟨queued_wellFormed, queued_hazards, queued_findCycle?, by cbv, queuedChain_not_closed,
    by decide, by decide⟩

theorem queued_queued :
    WellFormed queued ∧ (run crossed).hazards ++ [queuedHazard] <+: (run queued).hazards ∧
    queuedHazard.kind = .circularWait ∧
    ∃ queue circle, queue ++ circle = queuedChain ∧ queue ≠ [] ∧ Closed circle ∧
      ∃ known ∈ (run crossed).hazards,
        Recorded crossed .circularWait (circle.map WaitEdge.lock) known := by
  have hp : (run crossed).hazards ++ [queuedHazard] <+: (run queued).hazards :=
    queued_hazards ▸ List.prefix_rfl
  obtain ⟨earlier, time, thread, lock, later, queue, circle, ho, hb, alarm, q, _, _, _, known⟩ :=
    circular_wait_queued queued_wellFormed hp rfl
  have hl : later = [] := by
    by_contra hl
    -- There was no report before the last two requests.
    have hp : earlier <+: queued := ⟨_, ho.symm⟩
    have hs : earlier <+: queued.take 5 := by
      refine List.prefix_of_prefix_length_le hp (List.take_prefix ..) ?_
      have h₁ : queued.length = earlier.length + (later.length + 1) := by simp [ho]
      have h₂ : queued.length = 7 := rfl
      have h₃ : later.length ≠ 0 := by simpa using hl
      have h₄ : (queued.take 5).length = 5 := rfl
      omega
    obtain ⟨rest, hs⟩ := hs
    have hm := LockGraph.hazards_mono earlier rest
    rw [hs, hb, crossed_hazards] at hm
    have hn : (run (queued.take 5)).hazards = [] := by cbv
    simp [hn] at hm
  subst hl
  obtain ⟨rfl, ho⟩ := List.append_singleton_inj.mp ho
  cases ho
  have he : queue ++ circle = queuedChain :=
    Option.some.inj (alarm.found.symm.trans queued_findCycle?)
  have hq : queue ≠ [] := by
    rintro rfl
    exact queuedChain_not_closed (he ▸ q.closed)
  exact ⟨queued_wellFormed, hp, rfl, queue, circle, he, hq, q.closed, known hq⟩

end PyVerify.Locks
