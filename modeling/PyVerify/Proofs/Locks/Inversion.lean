import PyVerify.Proofs.Locks.Finding

namespace PyVerify.Locks

open List

namespace LockGraph

theorem mem_neighbours {a b : LockId} {locks : List LockId} :
    (a, b) ∈ neighbours locks ↔ [a, b] <:+: locks := by
  induction locks using neighbours.induct
  case case1 hd hd' tl hi => simp [neighbours, infix_cons_iff, hi]
  case case2 locks h =>
    cases locks
    case nil => simp [neighbours]
    case cons tl =>
      cases tl
      case nil  => simp [neighbours, infix_cons_iff]
      case cons => exact absurd rfl (h _ _ _)

variable {g : LockGraph} {time : Binary64} {thread : ThreadId} {key : Key}

-- Some other thread has taken the locks the other way around.
def Reversed (g : LockGraph) (thread : ThreadId) (pair : LockId × LockId) : Prop :=
  ∃ t, t ≠ thread ∧ (t, pair.2, pair.1) ∈ g.history

def pairKey (pair : LockId × LockId) : Key :=
  (.orderingInversion, sortLocks [pair.1, pair.2])

theorem pairKey_eq_iff {p q : LockId × LockId} : pairKey p = pairKey q ↔ p = q ∨ p = q.swap := by
  obtain ⟨a, b⟩ := p
  obtain ⟨c, d⟩ := q
  simp only [pairKey, Prod.mk.injEq, true_and, sortLocks_eq_iff, Prod.swap_prod_mk]
  constructor
  case mp =>
    intro h
    have ha : a = c ∨ a = d := by simpa using h.mem_iff.mp mem_cons_self
    cases ha
    case inl ha =>
      subst ha
      exact .inl ⟨rfl, by simpa using h⟩
    case inr ha =>
      subst ha
      exact .inr ⟨rfl, by simpa using h.trans (.swap ..)⟩
  case mpr =>
    intro h
    cases h
    case inl h => rw [h.left, h.right]
    case inr h =>
      rw [h.left, h.right]
      exact .swap ..

theorem otherWith?_isSome {pair : LockId × LockId} :
    (g.otherWith? thread pair.2 pair.1).isSome ↔ g.Reversed thread pair := by
  simp [otherWith?, Reversed, and_comm]

theorem mem_reported_checkPair {pair : LockId × LockId} :
    key ∈ (g.checkPair time thread pair.1 pair.2).1.reported ↔
      key ∈ g.reported ∨ g.Reversed thread pair ∧ key = pairKey pair := by
  rw [←otherWith?_isSome]
  unfold checkPair
  split
  case h_1 h => simp [h]
  case h_2 h => simp [h, mem_reported_report, orderingInversion, pairKey]

theorem Records.reversed_iff {g₁ g₂ : LockGraph} (r : Records g₁ g₂) {pair : LockId × LockId} :
    g₂.Reversed thread pair ↔ g₁.Reversed thread pair := by
  simp [Reversed, r.history]

theorem mem_reported_checkPairs {pairs : List (LockId × LockId)} :
    key ∈ (g.checkPairs time thread pairs).1.reported ↔
      key ∈ g.reported ∨ ∃ pair ∈ pairs, g.Reversed thread pair ∧ key = pairKey pair := by
  induction pairs generalizing g
  case nil => simp [checkPairs]
  case cons pair pairs hi =>
    have r := checkPair_records g time thread pair.1 pair.2
    rw [checkPairs_cons, hi, mem_reported_checkPair]
    simp [r.reversed_iff, or_assoc]

-- The pairs of the thread itself do not count.
theorem reversed_take {lock : LockId} {pair : LockId × LockId} :
    (g.take thread lock).Reversed thread pair ↔ g.Reversed thread pair := by
  simp only [Reversed, take, mem_append, mem_map, Prod.mk.injEq]
  constructor
  case mp =>
    rintro ⟨t, hn, h⟩
    cases h
    case inl h => exact ⟨t, hn, h⟩
    case inr h => exact absurd h.choose_spec.right.left.symm hn
  case mpr =>
    rintro ⟨t, hn, h⟩
    exact ⟨t, hn, .inl h⟩

-- A grant compares the pairs that the thread has now with those that others ever had.
theorem mem_reported_grant {lock : LockId} {waited : Binary64} :
    key ∈ (g.grant time thread lock waited).1.reported ↔
      key ∈ g.reported ∨
        ∃ pair, [pair.1, pair.2] <:+: g.acquired thread ++ [lock] ∧ g.Reversed thread pair ∧
          key = pairKey pair := by
  have r := log_records (g.take thread lock) time thread lock (.acquired waited)
  rw [grant_eq, mem_reported_checkPairs]
  simp only [mem_reverse, ←mem_neighbours, r.reversed_iff, reversed_take]
  rfl

theorem mem_history_grant {lock : LockId} {waited : Binary64} {t : ThreadId} {pair : LockId × LockId} :
    (t, pair) ∈ (g.grant time thread lock waited).1.history ↔
      (t, pair) ∈ g.history ∨ t = thread ∧ [pair.1, pair.2] <:+: g.acquired thread ++ [lock] := by
  obtain ⟨a, b⟩ := pair
  rw [(grant_records ..).history, ←mem_neighbours]
  simp [take, and_comm, eq_comm]

-- Inversions are recorded for just those pairs that two threads took in different orders.
def Exact (g : LockGraph) : Prop :=
  ∀ pair, pairKey pair ∈ g.reported ↔
    ∃ t u, t ≠ u ∧ (t, pair) ∈ g.history ∧ (u, pair.swap) ∈ g.history

theorem Exact.grant {lock : LockId} {waited : Binary64} (e : g.Exact) :
    (g.grant time thread lock waited).1.Exact := by
  intro pair
  rw [mem_reported_grant, e pair]
  simp only [mem_history_grant]
  constructor
  case mp =>
    intro h
    cases h
    case inl h =>
      obtain ⟨t, u, hn, ht, hu⟩ := h
      exact ⟨t, u, hn, .inl ht, .inl hu⟩
    case inr h =>
      obtain ⟨p, hp, ⟨u, hn, hu⟩, hk⟩ := h
      cases pairKey_eq_iff.mp hk
      case inl h =>
        subst h
        exact ⟨thread, u, hn.symm, .inr ⟨rfl, hp⟩, .inl hu⟩
      case inr h =>
        subst h
        exact ⟨u, thread, hn, .inl hu, .inr ⟨rfl, hp⟩⟩
  case mpr =>
    rintro ⟨t, u, hn, ht, hu⟩
    cases ht <;> cases hu
    case inl.inl ht hu => exact .inl ⟨t, u, hn, ht, hu⟩
    case inr.inl ht hu => exact .inr ⟨pair, ht.right, ⟨u, ht.left ▸ hn.symm, hu⟩, rfl⟩
    case inl.inr ht hu =>
      exact .inr ⟨pair.swap, hu.right, ⟨t, hu.left ▸ hn, ht⟩, pairKey_eq_iff.mpr <| .inr rfl⟩
    case inr.inr ht hu => exact absurd (ht.left.trans hu.left.symm) hn

theorem Exact.congr {g₁ g₂ : LockGraph} (e : g₁.Exact)
    (hr : ∀ pair, pairKey pair ∈ g₂.reported ↔ pairKey pair ∈ g₁.reported)
    (hh : ∀ entry, entry ∈ g₂.history ↔ entry ∈ g₁.history) : g₂.Exact := by
  intro pair
  simp only [hr, hh, e pair]

theorem Exact.apply (e : g.Exact) (op : Operation) : (g.apply op).Exact := by
  cases op <;> simp only [LockGraph.apply]
  case grant => exact e.grant
  case registerThread => exact e.congr (by simp) (by simp)
  case request =>
    apply e.congr
    · simp [mem_reported_request, pairKey]
    · simp [(request_records ..).history, await]
  case rehash => exact e.congr (by simp) (by simp)
  all_goals exact e.congr (fun _ => .rfl) (fun _ => .rfl)

theorem exact_run (ops : List Operation) : (run ops).Exact := by
  induction ops using List.reverseRecOn
  case nil => intro pair; simp [empty]
  case append_singleton ops op hi => simpa using hi.apply op

end LockGraph

open LockGraph

-- A thread had two locks next to each other in its order right after a lock was granted to it.
def Adjacent (ops : List Operation) (thread : ThreadId) (a b : LockId) : Prop :=
  ∃ earlier time lock waited, earlier ++ [.grant time thread lock waited] <+: ops ∧
    [a, b] <:+: (run (earlier ++ [.grant time thread lock waited])).acquired thread

theorem acquired_grant {g : LockGraph} {time : Binary64} {thread : ThreadId} {lock : LockId}
    {waited : Binary64} :
    (g.grant time thread lock waited).1.acquired thread = g.acquired thread ++ [lock] := by
  simp [(grant_records ..).acquired]

theorem adjacent_append_singleton {ops : List Operation} {op : Operation} {thread : ThreadId}
    {a b : LockId} :
    Adjacent (ops ++ [op]) thread a b ↔
      Adjacent ops thread a b ∨
        ∃ time lock waited, op = .grant time thread lock waited ∧
          [a, b] <:+: (run (ops ++ [op])).acquired thread := by
  simp only [Adjacent, prefix_concat_iff]
  constructor
  case mp =>
    rintro ⟨earlier, time, lock, waited, hp, ha⟩
    cases hp
    case inl hp =>
      obtain ⟨he, ho⟩ := append_inj' hp rfl
      cases he
      cases ho
      exact .inr ⟨time, lock, waited, rfl, ha⟩
    case inr hp => exact .inl ⟨earlier, time, lock, waited, hp, ha⟩
  case mpr =>
    intro h
    cases h
    case inl h =>
      obtain ⟨earlier, time, lock, waited, hp, ha⟩ := h
      exact ⟨earlier, time, lock, waited, .inr hp, ha⟩
    case inr h =>
      obtain ⟨time, lock, waited, ho, ha⟩ := h
      exact ⟨ops, time, lock, waited, .inl (ho ▸ rfl), ho ▸ ha⟩

-- The history holds the pairs of all grants, in whatever order.
theorem mem_history_run {ops : List Operation} {thread : ThreadId} {a b : LockId} :
    (thread, a, b) ∈ (run ops).history ↔ Adjacent ops thread a b := by
  induction ops using List.reverseRecOn
  case nil => simp [LockGraph.empty, Adjacent]
  case append_singleton ops op hi =>
    rw [adjacent_append_singleton, run_append_singleton, ←hi]
    cases op <;> simp only [LockGraph.apply]
    case grant time t lock waited =>
      rw [mem_history_grant]
      by_cases h : thread = t
      case pos => simp [h, acquired_grant]
      case neg => simp [h, Ne.symm h]
    case request => simp [(request_records ..).history, await]
    case registerThread => simp
    case rehash => simp
    all_goals simp; rfl

-- An inversion of two locks has been recorded if and only if two threads had them next to each other
-- in different orders, whatever else happened in between, and there is one hazard for it at most.
theorem inversion_recorded_iff (ops : List Operation) (a b : LockId) :
    ((∃ hazard, Recorded ops .orderingInversion [a, b] hazard) ↔
      ∃ t u, t ≠ u ∧ Adjacent ops t a b ∧ Adjacent ops u b a) ∧
    ((run ops).findings.map Prod.fst).count (.orderingInversion, sortLocks [a, b]) ≤ 1 ∧
    (run ops).findings.map Prod.snd = (run ops).hazards := by
  refine ⟨?_, ?_, findings_hazards ops⟩
  · rw [Recorded.exists_iff]
    simp only [←mem_history_run]
    exact exact_run ops (a, b)
  · rw [findings_keys]
    exact nodup_iff_count_le_one.mp (reported_nodup ops) _

end PyVerify.Locks
