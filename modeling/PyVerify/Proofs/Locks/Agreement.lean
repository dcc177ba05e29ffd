import PyVerify.Proofs.Locks.Effect
import PyVerify.Proofs.Locks.Trace
import PyVerify.Proofs.Locks.WaitGraph

namespace PyVerify.Locks

-- The maps of a graph say who has and who waits for which lock after some operations. All four are
-- read off the operations, so that they agree with each other as far as the operations do.
structure LockGraph.Agrees (g : LockGraph) (ops : List Operation) : Prop where
  holder   : ∀ lock thread, g.holder.get? lock = some thread ↔ lock ∈ taken thread ops
  holds    : ∀ lock thread, lock ∈ g.holds thread ↔ lock ∈ taken thread ops
  acquired : ∀ thread, g.acquired thread = taken thread ops
  waiting  : ∀ thread, g.waiting thread = (pending thread ops).toList

namespace LockGraph.Agrees

variable {g g₁ g₂ : LockGraph} {ops : List Operation} {thread : ThreadId} {lock : LockId}

theorem empty : Agrees LockGraph.empty [] where
  holder _ _  := by simp [LockGraph.empty]
  holds _ _   := by simp [LockGraph.holds, LockGraph.empty]
  acquired _  := by simp [LockGraph.acquired, LockGraph.empty]
  waiting _   := by simp [LockGraph.waiting, LockGraph.empty]

theorem congr (a : Agrees g₁ ops) (s : SameMaps g₁ g₂) : Agrees g₂ ops where
  holder      := s.holder ▸ a.holder
  holds l t   := s.holds t ▸ a.holds l t
  acquired t  := s.acquired t ▸ a.acquired t
  waiting t   := s.waiting t ▸ a.waiting t

theorem await (a : Agrees g ops) (idle : pending thread ops = none) :
    Agrees (g.await thread lock) (ops ++ [.request time thread lock]) where
  holder l t  := by simpa [Operation.taken] using a.holder l t
  holds l t   := by simpa [Operation.taken] using a.holds l t
  acquired t  := by simpa [Operation.taken] using a.acquired t
  waiting t   := by
    by_cases h : t = thread
    case pos => simp [h, Operation.pending, a.waiting, idle, insertLock]
    case neg => simp [h, Ne.symm h, Operation.pending, a.waiting]

theorem stopWaiting (a : Agrees g ops) (waits : pending thread ops = some lock) :
    (g.stopWaiting thread lock).waiting t = (if thread = t then none else pending t ops).toList := by
  by_cases h : t = thread
  case pos => simp [h, a.waiting, waits]
  case neg => simp [h, Ne.symm h, a.waiting]

theorem deny (a : Agrees g ops) (waits : pending thread ops = some lock) :
    Agrees (g.stopWaiting thread lock) (ops ++ [.deny time thread lock]) where
  holder l t  := by simpa [Operation.taken] using a.holder l t
  holds l t   := by simpa [Operation.taken] using a.holds l t
  acquired t  := by simpa [Operation.taken] using a.acquired t
  waiting _   := by simpa [Operation.pending] using a.stopWaiting waits

theorem take
    (a : Agrees g ops) (waits : pending thread ops = some lock) (free : ∀ t, lock ∉ taken t ops) :
    Agrees (g.take thread lock) (ops ++ [.grant time thread lock waited]) where
  holder l t := by
    by_cases hl : l = lock <;> by_cases ht : thread = t <;>
      simp [hl, ht, Operation.taken, a.holder, free]
  holds l t := by
    by_cases ht : thread = t
    case pos => simp [ht, Operation.taken, a.holds, or_comm]
    case neg => simp [ht, Ne.symm ht, Operation.taken, a.holds]
  acquired t := by
    by_cases ht : thread = t
    case pos => simp [ht, Operation.taken, a.acquired]
    case neg => simp [ht, Ne.symm ht, Operation.taken, a.acquired]
  waiting _ := by simpa [Operation.pending] using a.stopWaiting waits

theorem letGo (a : Agrees g ops) (wf : WellFormed ops) (has : lock ∈ taken thread ops) :
    Agrees (g.letGo thread lock) (ops ++ [.release time thread lock]) where
  holder l t := by
    have h := (a.holder ..).mpr has
    by_cases hl : l = lock
    case pos =>
      -- Nobody else had the lock.
      have hn : lock ∈ taken t ops → thread = t := wf.taken_disjoint has
      by_cases ht : thread = t <;> simp_all [Operation.taken]
    case neg => by_cases ht : thread = t <;> simp [hl, ht, Operation.taken, a.holder]
  holds l t := by
    by_cases ht : thread = t
    case pos => simp [ht, Operation.taken, a.holds]
    case neg => simp [ht, Ne.symm ht, Operation.taken, a.holds]
  acquired t := by
    by_cases ht : thread = t
    case pos => simp [ht, Operation.taken, a.acquired, (wf.taken_nodup t).erase_eq_filter]; rfl
    case neg => simp [ht, Ne.symm ht, Operation.taken, a.acquired]
  waiting t := by simpa [Operation.pending] using a.waiting t

-- An operation that moves no lock.
theorem idle {op : Operation} (a : Agrees g ops) (ht : ∀ t, taken t (ops ++ [op]) = taken t ops)
    (hp : ∀ t, pending t (ops ++ [op]) = pending t ops) : Agrees g (ops ++ [op]) where
  holder l t  := by simpa only [ht] using a.holder l t
  holds l t   := by simpa only [ht] using a.holds l t
  acquired t  := by simpa only [ht] using a.acquired t
  waiting t   := by simpa only [hp] using a.waiting t

theorem apply {op : Operation} (a : Agrees g ops) (wf : WellFormed ops) (p : Permits ops op) :
    Agrees (g.apply op) (ops ++ [op]) := by
  cases p
  case request idle     => exact (a.await idle).congr (request_records ..).toSameMaps
  case grant waits free => exact (a.take waits free).congr (grant_records ..).toSameMaps
  case deny waits       => exact (a.deny waits).congr (deny_records ..).toSameMaps
  case release has _    => exact (a.letGo wf has).congr (release_records ..).toSameMaps
  all_goals
    apply (a.idle (by simp [Operation.taken]) (by simp [Operation.pending])).congr
  case registerLock     => exact registerLock_sameMaps ..
  case registerThread   => exact registerThread_sameMaps ..
  case rehash           => exact rehash_sameMaps ..

theorem genuine_iff (a : Agrees g ops) {e : WaitEdge} :
    e.Genuine g.waiting g.holder ↔ pending e.waiter ops = some e.lock ∧ e.lock ∈ taken e.holder ops := by
  constructor
  case mp =>
    rintro ⟨waits, has⟩
    rw [a.waiting, Option.mem_toList] at waits
    exact ⟨waits, (a.holder ..).mp has⟩
  case mpr =>
    rintro ⟨waits, has⟩
    exact ⟨by rw [a.waiting, Option.mem_toList]; exact waits, (a.holder ..).mpr has⟩

-- A thread waits for one lock at a time.
theorem genuine_unique (a : Agrees g ops) {t u₁ u₂ : ThreadId} {l₁ l₂ : LockId}
    (h₁ : WaitEdge.Genuine g.waiting g.holder ⟨t, l₁, u₁⟩)
    (h₂ : WaitEdge.Genuine g.waiting g.holder ⟨t, l₂, u₂⟩) : l₁ = l₂ ∧ u₁ = u₂ := by
  have hl : l₁ = l₂ :=
    Option.some.inj <| (a.genuine_iff.mp h₁).left.symm.trans (a.genuine_iff.mp h₂).left
  subst hl
  exact ⟨rfl, Option.some.inj (h₁.has.symm.trans h₂.has)⟩

end LockGraph.Agrees

open LockGraph (run)

theorem WellFormed.agrees {ops : List Operation} (wf : WellFormed ops) : (run ops).Agrees ops := by
  induction wf
  case nil => exact .empty
  case step wf p hi => simpa using hi.apply wf p

-- The four maps of a graph agree after every run: a lock's holder is the thread that holds it and
-- has it in its order, the order is that of the grants, and a thread waits for what it has asked for.
theorem maps_agree {ops : List Operation} (wf : WellFormed ops) :
    (∀ lock thread,
      ((run ops).holder.get? lock = some thread ↔ lock ∈ (run ops).holds thread) ∧
      (lock ∈ (run ops).holds thread ↔ lock ∈ (run ops).acquired thread)) ∧
    (∀ thread, ((run ops).acquired thread).Nodup ∧ (run ops).acquired thread = taken thread ops) ∧
    (∀ lock t u, lock ∈ (run ops).holds t → lock ∈ (run ops).holds u → t = u) ∧
    (∀ thread, (run ops).waiting thread = (pending thread ops).toList) := by
  have a := wf.agrees
  refine ⟨fun lock thread => ⟨?_, ?_⟩, fun thread => ⟨?_, a.acquired thread⟩, ?_, a.waiting⟩
  · rw [a.holder, a.holds]
  · rw [a.holds, a.acquired]
  · rw [a.acquired]
    exact wf.taken_nodup thread
  · intro lock t u ht hu
    exact wf.taken_disjoint ((a.holds ..).mp ht) ((a.holds ..).mp hu)

theorem crossed_maps_agree :
    WellFormed crossed ∧
    (run crossed).holder.get? ⟨1⟩ = some ⟨"A"⟩ ∧ ⟨1⟩ ∈ (run crossed).holds ⟨"A"⟩ ∧
    (run crossed).acquired ⟨"A"⟩ = [⟨1⟩] ∧ (run crossed).waiting ⟨"A"⟩ = [⟨2⟩] := by
  obtain ⟨same, order, _, waits⟩ := maps_agree crossed_wellFormed
  have ha : (run crossed).acquired ⟨"A"⟩ = [⟨1⟩] := (order ⟨"A"⟩).right
  have hm : ⟨1⟩ ∈ (run crossed).holds ⟨"A"⟩ := (same ..).right.mpr (by simp [ha])
  exact ⟨crossed_wellFormed, (same ..).left.mpr hm, hm, ha, waits ⟨"A"⟩⟩

end PyVerify.Locks
