import PyVerify.Locks.Cycle

namespace PyVerify.Locks

variable {waiting : ThreadId → List LockId} {holder : Table LockId ThreadId}

-- The waiter of an edge waits for its lock, and the holder has it.
structure WaitEdge.Genuine
    (waiting : ThreadId → List LockId) (holder : Table LockId ThreadId) (e : WaitEdge) : Prop where
  waits : e.lock ∈ waiting e.waiter
  has   : holder.get? e.lock = some e.holder

-- `Blocks u t` means that `t` waits for a lock of `u`. Accessible threads are those from which no way
-- along such edges goes on forever.
def Blocks (waiting : ThreadId → List LockId) (holder : Table LockId ThreadId) (u t : ThreadId) :
    Prop :=
  ∃ lock, WaitEdge.Genuine waiting holder ⟨t, lock, u⟩

-- Genuine edges from a thread through threads off the way, each of which joins the way, up to the
-- first edge that leads back to it.
inductive Lasso (waiting : ThreadId → List LockId) (holder : Table LockId ThreadId) :
    List ThreadId → ThreadId → List WaitEdge → Prop
  | close :
    (WaitEdge.Genuine waiting holder ⟨t, lock, u⟩) → (u ∈ way) →
    Lasso waiting holder way t [⟨t, lock, u⟩]
  | step :
    (WaitEdge.Genuine waiting holder ⟨t, lock, u⟩) → (u ∉ way) →
    (Lasso waiting holder (u :: way) u edges) → Lasso waiting holder way t (⟨t, lock, u⟩ :: edges)

theorem follow_lasso {way visited visited' : List ThreadId} {thread : ThreadId}
    {locks : List LockId} {edges : List WaitEdge} (sub : locks ⊆ waiting thread)
    (h : follow waiting holder way visited thread locks = (some edges, visited')) :
    Lasso waiting holder way thread edges := by
  fun_induction follow waiting holder way visited thread locks generalizing edges visited'
  case case1 => cases h
  case case2 hi => exact hi (List.subset_of_cons_subset sub) h
  case case3 lock _ next hn edge hw =>
    cases h
    exact .close ⟨sub List.mem_cons_self, hn⟩ hw
  case case4 hi => exact hi (List.subset_of_cons_subset sub) h
  case case5 lock _ next hn edge hw _ _ _ hf hi =>
    cases h
    exact .step ⟨sub List.mem_cons_self, hn⟩ hw (hi (List.Subset.refl _) hf)
  case case6 hi => exact hi (List.subset_of_cons_subset sub) h

-- The search marks threads that are left behind for good. It is complete since they are accessible:
-- all threads that they wait for have been left behind before.
theorem follow_none_acc {way visited visited' : List ThreadId} {thread : ThreadId}
    {locks : List LockId} (hv : ∀ t ∈ visited, t ∈ way ∨ Acc (Blocks waiting holder) t)
    (h : follow waiting holder way visited thread locks = (none, visited')) :
    (∀ t ∈ visited', t ∈ way ∨ Acc (Blocks waiting holder) t) ∧
    (∀ lock ∈ locks, ∀ u, holder.get? lock = some u → Acc (Blocks waiting holder) u) := by
  fun_induction follow waiting holder way visited thread locks generalizing visited'
  case case1 =>
    cases h
    exact ⟨hv, by simp⟩
  case case2 hn hi =>
    obtain ⟨hv', ha⟩ := hi hv h
    exact ⟨hv', List.forall_mem_cons.mpr ⟨by simp [hn], ha⟩⟩
  case case3 => cases h
  case case4 hn hw hm hi =>
    obtain ⟨hv', ha⟩ := hi hv h
    have hacc := (hv _ hm).resolve_left hw
    exact ⟨hv', List.forall_mem_cons.mpr ⟨by simp [hn, hacc], ha⟩⟩
  case case5 => cases h
  case case6 way visited _ _ _ next hn hw _ visited₁ hf hi₁ hi₂ =>
    have hv₁ : ∀ t ∈ next :: visited, t ∈ next :: way ∨ Acc (Blocks waiting holder) t := by
      intro t ht
      cases List.mem_cons.mp ht
      case inl he => exact .inl (he ▸ List.mem_cons_self)
      case inr ht => exact (hv t ht).imp_left (List.mem_cons_of_mem _)
    obtain ⟨hv₁, ha₁⟩ := hi₁ hv₁ hf
    have hacc : Acc (Blocks waiting holder) next := by
      constructor
      rintro u ⟨lock, waits, has⟩
      exact ha₁ lock waits u has
    have hv₂ : ∀ t ∈ visited₁, t ∈ way ∨ Acc (Blocks waiting holder) t := by
      intro t ht
      cases hv₁ t ht
      case inl hm =>
        cases List.mem_cons.mp hm
        case inl he => exact .inr (he ▸ hacc)
        case inr hm => exact .inl hm
      case inr ha => exact .inr ha
    obtain ⟨hv', ha⟩ := hi₂ hv₂ h
    exact ⟨hv', List.forall_mem_cons.mpr ⟨by simp [hn, hacc], ha⟩⟩

variable {start : ThreadId}

theorem findCycle?_lasso {edges : List WaitEdge} (h : findCycle? waiting holder start = some edges) :
    Lasso waiting holder [start] start edges := by
  unfold findCycle? at h
  exact follow_lasso (List.Subset.refl _) (Prod.ext h rfl)

theorem findCycle?_acc (h : findCycle? waiting holder start = none) :
    Acc (Blocks waiting holder) start := by
  have hv : ∀ t ∈ [start], t ∈ [start] ∨ Acc (Blocks waiting holder) t := fun _ => .inl
  obtain ⟨_, ha⟩ := follow_none_acc hv (Prod.ext h rfl)
  constructor
  rintro u ⟨lock, waits, has⟩
  exact ha lock waits u has

namespace Lasso

variable {way : List ThreadId} {thread : ThreadId} {edges : List WaitEdge}

theorem genuine (l : Lasso waiting holder way thread edges) :
    ∀ e ∈ edges, e.Genuine waiting holder := by
  induction l <;> simp_all

theorem mem_waiters (l : Lasso waiting holder way thread edges) : thread ∈ edges.map WaitEdge.waiter := by
  cases l <;> simp

-- No edge leads anywhere but to the way or to another edge.
theorem holder_mem (l : Lasso waiting holder way thread edges) :
    ∀ e ∈ edges, e.holder ∈ way ∨ e.holder ∈ edges.map WaitEdge.waiter := by
  induction l
  case close hw => simp [hw]
  case step l hi =>
    intro e he
    cases List.mem_cons.mp he
    case inl he =>
      subst he
      exact .inr (List.mem_cons_of_mem _ l.mem_waiters)
    case inr he =>
      cases hi e he
      case inr hm => exact .inr (List.mem_cons_of_mem _ hm)
      case inl hm =>
        cases List.mem_cons.mp hm
        case inl hu =>
          rw [hu]
          exact .inr (List.mem_cons_of_mem _ l.mem_waiters)
        case inr hm => exact .inl hm

end Lasso

-- What a search from a thread has found is closed: each holder is a waiter.
theorem holder_mem_waiters {edges : List WaitEdge} (h : findCycle? waiting holder start = some edges) :
    ∀ e ∈ edges, e.holder ∈ edges.map WaitEdge.waiter := by
  intro e he
  have l := findCycle?_lasso h
  cases l.holder_mem e he
  case inl hm => exact List.mem_singleton.mp hm ▸ l.mem_waiters
  case inr hm => exact hm

end PyVerify.Locks
