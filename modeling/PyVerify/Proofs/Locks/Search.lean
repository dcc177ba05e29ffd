import Mathlib.Data.List.Permutation
import Mathlib.Logic.Relation
import PyVerify.Locks.Graph
import PyVerify.Proofs.Locks.WaitGraph

namespace PyVerify.Locks

open Relation

variable {waiting : ThreadId → List LockId} {holder : Table LockId ThreadId}

-- `WaitsFor t u` means that `t` waits for a lock of `u`.
def WaitsFor (waiting : ThreadId → List LockId) (holder : Table LockId ThreadId) (t u : ThreadId) :
    Prop :=
  Blocks waiting holder u t

-- Whoever waits for a thread that is not accessible is not accessible either.
theorem acc_of_waitsFor {t u : ThreadId} (h : Acc (Blocks waiting holder) t)
    (w : ReflTransGen (WaitsFor waiting holder) t u) : Acc (Blocks waiting holder) u := by
  induction w
  case refl           => exact h
  case tail w hi      => exact hi.inv w

-- Accessible threads are on no cycle.
theorem not_cycle_of_acc {t : ThreadId} (h : Acc (Blocks waiting holder) t) :
    ¬TransGen (WaitsFor waiting holder) t t := by
  intro c
  induction h
  case intro t _ hi =>
    -- The first thread on the way around is on a cycle as well.
    obtain ⟨u, w, c⟩ := TransGen.head'_iff.mp c
    exact hi u w (TransGen.tail' c w)

namespace Lasso

variable {way : List ThreadId} {thread : ThreadId} {edges : List WaitEdge}

theorem waiters (l : Lasso waiting holder way thread edges) :
    ∃ others, edges.map WaitEdge.waiter = thread :: others ∧ others.Nodup ∧ others.Disjoint way := by
  induction l
  case close => exact ⟨[], rfl, .nil, List.disjoint_nil_left _⟩
  case step t lock u way edges _ hu _ hi =>
    obtain ⟨others, he, hn, hd⟩ := hi
    obtain ⟨hu', hd⟩ := List.disjoint_cons_right.mp hd
    exact ⟨u :: others, by simp [he], hn.cons hu', List.disjoint_cons_left.mpr ⟨hu, hd⟩⟩

theorem waiters_nodup (l : Lasso waiting holder way thread edges) (hw : thread ∈ way) :
    (edges.map WaitEdge.waiter).Nodup := by
  obtain ⟨others, he, hn, hd⟩ := l.waiters
  exact he ▸ hn.cons fun ht => hd ht hw

theorem linked (l : Lasso waiting holder way thread edges) :
    edges.IsChain fun e f => e.holder = f.waiter := by
  induction l
  case close => exact .singleton _
  case step l hi =>
    cases l
    case close => exact .cons_cons rfl hi
    case step  => exact .cons_cons rfl hi

-- All threads on the way lead to the last one, so that an edge back to it closes a cycle.
theorem cycle (l : Lasso waiting holder way thread edges)
    (hw : ∀ t ∈ way, ReflTransGen (WaitsFor waiting holder) t thread) :
    ∃ t, ReflTransGen (WaitsFor waiting holder) thread t ∧ TransGen (WaitsFor waiting holder) t t := by
  induction l
  case close t lock u way gen hu =>
    have w : WaitsFor waiting holder t u := ⟨lock, gen⟩
    exact ⟨u, .single w, .tail' (hw u hu) w⟩
  case step t lock u way edges gen _ _ hi =>
    have w : WaitsFor waiting holder t u := ⟨lock, gen⟩
    obtain ⟨v, hv, c⟩ := hi <| List.forall_mem_cons.mpr ⟨.refl, fun t ht => (hw t ht).tail w⟩
    exact ⟨v, hv.head w, c⟩

end Lasso

-- The search enters a thread only if the thread has a lock and has not been entered before.
theorem follow_visited_induction {P : List ThreadId → Prop} {way visited : List ThreadId}
    {thread : ThreadId} {locks : List LockId} (h : P visited)
    (enter : ∀ {lock next visited}, holder.get? lock = some next → next ∉ visited → P visited →
      P (next :: visited)) :
    P (follow waiting holder way visited thread locks).2 := by
  fun_induction follow waiting holder way visited thread locks
  case case1 | case3        => exact h
  case case2 hi | case4 hi  => exact hi h
  case case5 hl _ _ hv _ _ hf hi =>
    rw [hf] at hi
    exact hi (enter hl hv h)
  case case6 hl _ hv _ hf hi₁ hi₂ =>
    rw [hf] at hi₁
    exact hi₂ (hi₁ (enter hl hv h))

variable {start : ThreadId}

theorem findCycle?_isSome_iff :
    (∃ edges, findCycle? waiting holder start = some edges) ↔
      ∃ t, ReflTransGen (WaitsFor waiting holder) start t ∧
        TransGen (WaitsFor waiting holder) t t := by
  constructor
  case mp =>
    rintro ⟨edges, h⟩
    exact (findCycle?_lasso h).cycle <| List.forall_mem_singleton.mpr .refl
  case mpr =>
    rintro ⟨t, w, c⟩
    cases h : findCycle? waiting holder start
    case none       => exact absurd c (not_cycle_of_acc (acc_of_waitsFor (findCycle?_acc h) w))
    case some edges => exact ⟨edges, rfl⟩

-- Edges from a thread, each of which leads to the waiter of the next one, until one leads back.
structure IsLasso (waiting : ThreadId → List LockId) (holder : Table LockId ThreadId)
    (start : ThreadId) (edges : List WaitEdge) : Prop where
  starts  : ∃ first, edges.head? = some first ∧ first.waiter = start
  genuine : ∀ e ∈ edges, e.Genuine waiting holder
  linked  : edges.IsChain fun e f => e.holder = f.waiter
  nodup   : (edges.map WaitEdge.waiter).Nodup
  returns : ∃ last, edges.getLast? = some last ∧ ∃ e ∈ edges, e.waiter = last.holder

theorem findCycle?_isLasso {edges : List WaitEdge} (h : findCycle? waiting holder start = some edges) :
    IsLasso waiting holder start edges where
  starts := by
    cases findCycle?_lasso h <;> exact ⟨_, rfl, rfl⟩
  genuine := (findCycle?_lasso h).genuine
  linked := (findCycle?_lasso h).linked
  nodup := (findCycle?_lasso h).waiters_nodup List.mem_cons_self
  returns := by
    cases hl : edges.getLast?
    case none =>
      have hm := (findCycle?_lasso h).mem_waiters
      simp [List.getLast?_eq_none_iff.mp hl] at hm
    case some last =>
      exact ⟨last, rfl, List.mem_map.mp (holder_mem_waiters h last (List.mem_of_getLast? hl))⟩

-- The search is right on every graph, also if threads wait for several locks. It finds something just
-- if a cycle can be reached, and what it finds is a way into a cycle. It ends since it enters a thread
-- once at most.
theorem LockGraph.search_finds_reachable_cycle (g : LockGraph) (start : ThreadId) :
    ((∃ edges, g.findCycle? start = some edges) ↔
      ∃ t, ReflTransGen (WaitsFor g.waiting g.holder) start t ∧
        TransGen (WaitsFor g.waiting g.holder) t t) ∧
    (∀ edges, g.findCycle? start = some edges → IsLasso g.waiting g.holder start edges) ∧
    ∃ entered,
      follow g.waiting g.holder [start] [start] start (g.waiting start) =
        (g.findCycle? start, entered) ∧
      entered.Nodup ∧ ∀ t ∈ entered, t = start ∨ ∃ lock, g.holder.get? lock = some t := by
  refine ⟨findCycle?_isSome_iff, fun _ h => findCycle?_isLasso h, _, rfl, ?_, ?_⟩
  · exact follow_visited_induction (P := List.Nodup) (List.nodup_singleton _) fun _ hn h => h.cons hn
  · refine follow_visited_induction
      (P := fun entered => ∀ t ∈ entered, t = start ∨ ∃ lock, g.holder.get? lock = some t) (by simp) ?_
    exact fun hl _ h => List.forall_mem_cons.mpr ⟨.inr ⟨_, hl⟩, h⟩

-- A thread waits for a lock of a thread that waits for nothing, and for one of two threads that wait
-- for each other.
def forked : LockGraph :=
  { LockGraph.empty with
    waits := ⟨[(⟨"A"⟩, [⟨1⟩, ⟨2⟩]), (⟨"C"⟩, [⟨3⟩]), (⟨"D"⟩, [⟨4⟩])]⟩
    holder := ⟨[(⟨1⟩, ⟨"B"⟩), (⟨2⟩, ⟨"C"⟩), (⟨3⟩, ⟨"D"⟩), (⟨4⟩, ⟨"C"⟩)]⟩ }

theorem forked_findCycle? :
    forked.findCycle? ⟨"A"⟩ =
      some [⟨⟨"A"⟩, ⟨2⟩, ⟨"C"⟩⟩, ⟨⟨"C"⟩, ⟨3⟩, ⟨"D"⟩⟩, ⟨⟨"D"⟩, ⟨4⟩, ⟨"C"⟩⟩] := by
  cbv

theorem forked_search :
    (∃ t, ReflTransGen (WaitsFor forked.waiting forked.holder) ⟨"A"⟩ t ∧
      TransGen (WaitsFor forked.waiting forked.holder) t t) ∧
    IsLasso forked.waiting forked.holder ⟨"A"⟩
      [⟨⟨"A"⟩, ⟨2⟩, ⟨"C"⟩⟩, ⟨⟨"C"⟩, ⟨3⟩, ⟨"D"⟩⟩, ⟨⟨"D"⟩, ⟨4⟩, ⟨"C"⟩⟩] ∧
    forked.findCycle? ⟨"B"⟩ = none := by
  obtain ⟨found_iff, lasso, _⟩ := forked.search_finds_reachable_cycle ⟨"A"⟩
  exact ⟨found_iff.mp ⟨_, forked_findCycle?⟩, lasso _ forked_findCycle?, by cbv⟩

end PyVerify.Locks
