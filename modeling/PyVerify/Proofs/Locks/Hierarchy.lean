import Mathlib.Order.WellFoundedSet
import PyVerify.Proofs.Locks.Blocked
import PyVerify.Proofs.Locks.Inversion

namespace PyVerify.Locks

open LockGraph (run)

-- A request is for a lock above all those that its thread has.
def Operation.Ascends (r : LockId → LockId → Prop) (ops : List Operation) : Operation → Prop
  | .request _ thread lock  => ∀ l ∈ Locks.taken thread ops, r l lock
  | _                       => True

-- Whenever a thread asks for a lock, the lock is above all those that the thread has at that moment.
def Ascending (r : LockId → LockId → Prop) (ops : List Operation) : Prop :=
  ∀ earlier op, earlier ++ [op] <+: ops → op.Ascends r earlier

variable {r : LockId → LockId → Prop} {ops : List Operation} {op : Operation}

theorem ascending_append_singleton :
    Ascending r (ops ++ [op]) ↔ Ascending r ops ∧ op.Ascends r ops := by
  simp only [Ascending, List.prefix_concat_iff]
  constructor
  case mp => exact fun h => ⟨fun earlier op hp => h earlier op (.inr hp), h ops op (.inl rfl)⟩
  case mpr =>
    rintro ⟨h, ho⟩ earlier op hp
    cases hp
    case inl hp =>
      obtain ⟨rfl, rfl⟩ := List.append_singleton_inj.mp hp
      exact ho
    case inr hp => exact h earlier op hp

theorem ascending_iff_getElem :
    Ascending r ops ↔ ∀ i, (h : i < ops.length) → ops[i].Ascends r (ops.take i) := by
  constructor
  case mp => exact fun asc i h => asc _ _ (List.take_append_getElem h ▸ List.take_prefix ..)
  case mpr =>
    rintro h earlier op ⟨later, rfl⟩
    simpa using h earlier.length (by simp)

instance [DecidableRel r] : Decidable (op.Ascends r ops) :=
  match op with
  | .request _ thread lock => inferInstanceAs <| Decidable (∀ l ∈ taken thread ops, r l lock)
  | .registerLock .. | .registerThread .. | .grant .. | .deny .. | .release .. | .rehash .. =>
    inferInstanceAs <| Decidable True

instance [DecidableRel r] : Decidable (Ascending r ops) :=
  decidable_of_iff _ ascending_iff_getElem.symm

-- All threads have taken their locks in ascending order, and the lock that a thread waits for is
-- above them.
structure Sorted (r : LockId → LockId → Prop) (ops : List Operation) : Prop where
  taken   : ∀ thread, (taken thread ops).Pairwise r
  pending : ∀ thread lock, pending thread ops = some lock → ∀ l ∈ Locks.taken thread ops, r l lock

namespace Sorted

theorem nil : Sorted r [] where
  taken _       := by simp
  pending _ _ h := by simp at h

theorem taken_step (s : Sorted r ops) (p : Permits ops op) (thread : ThreadId) :
    (Locks.taken thread (ops ++ [op])).Pairwise r := by
  have ht := s.taken thread
  rw [taken_append_singleton]
  cases p <;> simp only [Operation.taken]
  case grant waits _ =>
    split
    case isFalse => exact ht
    case isTrue h =>
      subst h
      refine List.pairwise_append.mpr ⟨ht, List.pairwise_singleton .., fun l hl _ hm => ?_⟩
      exact List.mem_singleton.mp hm ▸ s.pending _ _ waits l hl
  case release => split <;> simp [ht, List.Pairwise.filter]
  all_goals exact ht

theorem pending_step (s : Sorted r ops) (p : Permits ops op) (asc : op.Ascends r ops)
    (thread : ThreadId) (lock : LockId) (h : Locks.pending thread (ops ++ [op]) = some lock) :
    ∀ l ∈ Locks.taken thread (ops ++ [op]), r l lock := by
  have hp := s.pending thread lock
  rw [taken_append_singleton]
  rw [pending_append_singleton] at h
  cases p <;> simp only [Operation.pending, Operation.taken] at h ⊢
  case request =>
    split at h
    case isFalse => exact hp h
    case isTrue ht =>
      cases h
      exact ht ▸ asc
  -- Neither a grant nor a denial leaves its thread waiting,
  case grant | deny => split at h <;> simp_all
  -- and a thread that waits releases nothing.
  case release idle =>
    split
    case isTrue ht  => simp [←ht, idle] at h
    case isFalse    => exact hp h
  all_goals exact hp h

theorem step (s : Sorted r ops) (p : Permits ops op) (asc : op.Ascends r ops) :
    Sorted r (ops ++ [op]) where
  taken   := s.taken_step p
  pending := s.pending_step p asc

end Sorted

theorem WellFormed.sorted (wf : WellFormed ops) (asc : Ascending r ops) : Sorted r ops := by
  induction wf
  case nil => exact .nil
  case step wf p hi =>
    obtain ⟨asc, ho⟩ := ascending_append_singleton.mp asc
    exact (hi asc).step p ho

section Order

variable [IsStrictOrder LockId r]

-- Among finitely many locks that threads wait for is a highest one. Threads that wait for each other
-- have none: whoever has the highest one waits for a higher one.
theorem Sorted.not_stuck {edges : List WaitEdge} (s : Sorted r ops) (st : Stuck ops edges) :
    edges = [] := by
  have wf : {l | l ∈ edges.map WaitEdge.lock}.WellFoundedOn (Function.swap r) :=
    (List.finite_toSet _).wellFoundedOn
  have hn : ∀ l ∈ edges.map WaitEdge.lock, False := by
    refine fun l hl => wf.induction (P := fun _ => False) hl fun l hl hi => ?_
    obtain ⟨e, he, rfl⟩ := List.mem_map.mp hl
    obtain ⟨f, hf, hh⟩ := st.closed e he
    have ht : e.lock ∈ Locks.taken f.waiter ops := hh ▸ st.taken e he
    have hr : r e.lock f.lock := s.pending _ _ (st.pending f hf) _ ht
    exact hi f.lock (List.mem_map_of_mem hf) hr
  simpa using List.eq_nil_iff_forall_not_mem.mpr hn

theorem Sorted.findCycle?_eq_none {g : LockGraph} (s : Sorted r ops) (a : g.Agrees ops)
    (start : ThreadId) : g.findCycle? start = none := by
  cases h : g.findCycle? start
  case none => rfl
  case some edges =>
    have hm := (findCycle?_lasso h).mem_waiters
    simp [s.not_stuck (a.stuck h)] at hm

end Order

theorem Ascending.of_prefix {earlier : List Operation} (asc : Ascending r ops)
    (hp : earlier <+: ops) : Ascending r earlier :=
  fun _ _ h => asc _ _ (h.trans hp)

-- Neighbours in the order of a thread ascend.
theorem Adjacent.ascends {thread : ThreadId} {a b : LockId} (h : Adjacent ops thread a b)
    (wf : WellFormed ops) (asc : Ascending r ops) : r a b := by
  obtain ⟨earlier, time, lock, waited, hp, hi⟩ := h
  replace wf := wf.of_prefix hp
  have s := wf.sorted (asc.of_prefix hp)
  rw [wf.agrees.acquired] at hi
  exact List.pairwise_pair.mp <| (s.taken thread).sublist hi.sublist

-- A key is new after an operation only if a request has found a circle or two threads have taken two
-- locks in different orders.
theorem LockGraph.mem_reported_apply {g : LockGraph} {key : Key} (h : key ∈ (g.apply op).reported) :
    key ∈ g.reported ∨
      (∃ time thread lock, op = .request time thread lock ∧
        (g.await thread lock).findCycle? thread ≠ none) ∨
      ∃ pair, key = pairKey pair := by
  cases op <;> simp only [apply] at h
  case request time thread lock =>
    cases mem_reported_request.mp h
    case inl hk => exact .inl hk
    case inr h =>
      obtain ⟨edges, he, _⟩ := h
      exact .inr <| .inl ⟨time, thread, lock, rfl, by simp [he]⟩
  case grant =>
    cases mem_reported_grant.mp h
    case inl hk => exact .inl hk
    case inr h =>
      obtain ⟨pair, _, _, hk⟩ := h
      exact .inr <| .inr ⟨pair, hk⟩
  case registerThread => exact .inl (by simpa using h)
  case rehash         => exact .inl (by simpa using h)
  all_goals exact .inl h

variable [IsStrictOrder LockId r]

-- An operation of an ascending run reports nothing new.
theorem Ascending.mem_reported {key : LockGraph.Key} (wf : WellFormed (ops ++ [op]))
    (asc : Ascending r (ops ++ [op])) (h : key ∈ (run (ops ++ [op])).reported) :
    key ∈ (run ops).reported := by
  have hk := h
  rw [LockGraph.run_append_singleton] at hk
  obtain hk | ⟨time, thread, lock, rfl, hc⟩ | ⟨pair, rfl⟩ := LockGraph.mem_reported_apply hk
  · exact hk
  · obtain ⟨wf', p⟩ := wellFormed_append_singleton.mp wf
    have idle : pending thread ops = none := by
      cases p
      assumption
    exact absurd ((wf.sorted asc).findCycle?_eq_none (wf'.agrees.await idle) thread) hc
  · obtain ⟨t, u, _, ht, hu⟩ := (LockGraph.exact_run _ pair).mp h
    have h₁ : r pair.1 pair.2 := (mem_history_run.mp ht).ascends wf asc
    have h₂ : r pair.2 pair.1 := (mem_history_run.mp hu).ascends wf asc
    exact absurd h₂ (asymm h₁)

-- A global order of the locks keeps every run clean: if threads ask only for locks above those that
-- they have, nothing is recorded, neither a circular wait nor an inversion. The order need not be
-- total, and locks may be released in any order.
theorem ascending_clean (wf : WellFormed ops) (asc : Ascending r ops) : (run ops).hazards = [] := by
  have hr : (run ops).reported = [] := by
    induction wf
    case nil => rfl
    case step ops op wf p hi =>
      refine List.eq_nil_iff_forall_not_mem.mpr fun key hk => ?_
      have hk' := asc.mem_reported (.step wf p) hk
      simp [hi (ascending_append_singleton.mp asc).left] at hk'
  have hd := LockGraph.reported_describes_hazards ops
  rw [hr] at hd
  exact List.forall₂_nil_left_iff.mp hd

-- Two threads go up the same locks. One of them has to wait and is turned away later, and the other one
-- releases its lower lock first.
def ascent : List Operation :=
  [.request .zero ⟨"A"⟩ ⟨1⟩, .grant .zero ⟨"A"⟩ ⟨1⟩ .zero,
   .request .zero ⟨"B"⟩ ⟨1⟩,
   .request .zero ⟨"A"⟩ ⟨2⟩, .grant .zero ⟨"A"⟩ ⟨2⟩ .zero,
   .release .zero ⟨"A"⟩ ⟨1⟩, .grant .zero ⟨"B"⟩ ⟨1⟩ .zero,
   .request .zero ⟨"B"⟩ ⟨2⟩, .deny .zero ⟨"B"⟩ ⟨2⟩,
   .request .zero ⟨"A"⟩ ⟨3⟩]

theorem ascent_wellFormed : WellFormed ascent := by
  have h₁ : WellFormed (ascent.take 1) := .step .nil (.request rfl)
  have h₂ : WellFormed (ascent.take 2) := .step h₁ (.grant rfl (by simp [ascent, taken]))
  have h₃ : WellFormed (ascent.take 3) := .step h₂ (.request rfl)
  have h₄ : WellFormed (ascent.take 4) := .step h₃ (.request rfl)
  have h₅ : WellFormed (ascent.take 5) := .step h₄ (.grant rfl (by simp [ascent, taken]))
  have h₆ : WellFormed (ascent.take 6) := .step h₅ (.release (by decide) rfl)
  have h₇ : WellFormed (ascent.take 7) :=
    .step h₆ (.grant rfl (by simp [ascent, taken, Operation.isRelease]))
  have h₈ : WellFormed (ascent.take 8) := .step h₇ (.request rfl)
  have h₉ : WellFormed (ascent.take 9) := .step h₈ (.deny rfl)
  exact .step h₉ (.request rfl)

instance LockId.isStrictTotalOrder : IsStrictTotalOrder LockId fun a b => a.number < b.number where
  trichotomous a b h₁ h₂  := by cases a; cases b; simp_all; omega
  irrefl _                := Nat.lt_irrefl _
  trans _ _ _             := Nat.lt_trans

theorem ascent_clean :
    WellFormed ascent ∧ Ascending (fun a b => a.number < b.number) ascent ∧
    (run ascent).hazards = [] := by
  have asc : Ascending (fun a b => a.number < b.number) ascent := by decide
  exact ⟨ascent_wellFormed, asc, ascending_clean ascent_wellFormed asc⟩

end PyVerify.Locks
