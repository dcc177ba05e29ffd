import PyVerify.Proofs.Locks.Blocked

namespace PyVerify.Locks

open LockGraph (run)

namespace LockGraph

variable {g : LockGraph} {time : Binary64} {thread : ThreadId} {lock : LockId} {hazard : Hazard}
variable {before : List Hazard}

theorem prefix_report {locks : List LockId} {new : Hazard}
    (h : before ++ [hazard] <+: (g.report time thread lock locks new).1.hazards) :
    before ++ [hazard] <+: g.hazards ∨
      hazard = new ∧ before = g.hazards ∧
        (g.report time thread lock locks new).1.hazards = g.hazards ++ [hazard] := by
  unfold report at h ⊢
  dsimp only at h ⊢
  split at h
  case isTrue => exact .inl h
  case isFalse hn =>
    cases List.prefix_concat_iff.mp h
    case inl he =>
      obtain ⟨hb, rfl⟩ := List.append_singleton_inj.mp he
      exact .inr ⟨rfl, hb, by rw [if_neg hn]; rfl⟩
    case inr h => exact .inl h

-- Checking pairs of locks records nothing but inversions,
theorem prefix_checkPair {pair : LockId × LockId}
    (h : before ++ [hazard] <+: (g.checkPair time thread pair.1 pair.2).1.hazards) :
    before ++ [hazard] <+: g.hazards ∨ hazard.kind = .orderingInversion := by
  unfold checkPair at h
  split at h
  case h_1 => exact .inl h
  case h_2 => exact (prefix_report h).imp_right fun ⟨hn, _⟩ => hn ▸ rfl

theorem prefix_checkPairs {pairs : List (LockId × LockId)}
    (h : before ++ [hazard] <+: (g.checkPairs time thread pairs).1.hazards) :
    before ++ [hazard] <+: g.hazards ∨ hazard.kind = .orderingInversion := by
  induction pairs generalizing g
  case nil => exact .inl h
  case cons pair pairs hi =>
    cases hi h
    case inl h  => exact prefix_checkPair h
    case inr hk => exact .inr hk

theorem prefix_request (h : before ++ [hazard] <+: (g.request time thread lock).1.hazards) :
    before ++ [hazard] <+: g.hazards ∨
      before = g.hazards ∧ (g.request time thread lock).1.hazards = g.hazards ++ [hazard] := by
  rw [request_eq] at h ⊢
  split at h
  case h_1 => exact .inl h
  case h_2 => exact (prefix_report h).imp_right fun ⟨_, hb, hr⟩ => ⟨hb, hr⟩

-- so that a circular wait is recorded by a request.
theorem prefix_apply {op : Operation} (h : before ++ [hazard] <+: (g.apply op).hazards) :
    before ++ [hazard] <+: g.hazards ∨ hazard.kind = .orderingInversion ∨
      ∃ time thread lock, op = .request time thread lock ∧ before = g.hazards ∧
        (g.request time thread lock).1.hazards = g.hazards ++ [hazard] := by
  cases op <;> unfold apply at h <;> dsimp only at h
  case request time thread lock =>
    obtain h | ⟨hb, hr⟩ := prefix_request h
    · exact .inl h
    · exact .inr <| .inr ⟨time, thread, lock, rfl, hb, hr⟩
  case grant =>
    rw [grant_eq] at h
    cases prefix_checkPairs h
    case inl h  => exact .inl h
    case inr hk => exact .inr <| .inl hk
  case registerThread => exact .inl (by simpa using h)
  case rehash         => exact .inl (by simpa using h)
  all_goals exact .inl h

end LockGraph

-- A request records a circular wait, about the edges that its search has found.
structure Alarm (earlier : List Operation) (time : Binary64) (thread : ThreadId) (lock : LockId)
    (edges : List WaitEdge) (hazard : Hazard) : Prop where
  recorded  : (run (earlier ++ [.request time thread lock])).hazards = (run earlier).hazards ++ [hazard]
  found     : (run (earlier ++ [.request time thread lock])).findCycle? thread = some edges
  about     : hazard = (run (earlier ++ [.request time thread lock])).circularWait edges

variable {ops : List Operation} {time : Binary64} {thread : ThreadId} {lock : LockId}
variable {hazard : Hazard} {before : List Hazard}

theorem Alarm.of_recorded
    (h : (run (ops ++ [.request time thread lock])).hazards = (run ops).hazards ++ [hazard]) :
    ∃ edges, Alarm ops time thread lock edges hazard := by
  have hr := h
  rw [LockGraph.run_append_singleton] at hr
  obtain ⟨edges, hf, ha⟩ := LockGraph.request_hazard hr
  have r := LockGraph.request_records (run ops) time thread lock
  refine ⟨edges, h, ?_, ?_⟩ <;> rw [LockGraph.run_append_singleton]
  · exact (r.findCycle? thread).trans hf
  · exact ha.trans (r.circularWait edges).symm

-- Each circular wait that a run has recorded is the alarm of one of its requests.
theorem exists_alarm (h : before ++ [hazard] <+: (run ops).hazards) (hk : hazard.kind = .circularWait) :
    ∃ earlier time thread lock later edges,
      ops = earlier ++ .request time thread lock :: later ∧ (run earlier).hazards = before ∧
      Alarm earlier time thread lock edges hazard := by
  induction ops using List.reverseRecOn
  case nil => simp [LockGraph.empty] at h
  case append_singleton ops op hi =>
    rw [LockGraph.run_append_singleton] at h
    obtain h | hn | ⟨time, thread, lock, rfl, rfl, hr⟩ := LockGraph.prefix_apply h
    · obtain ⟨earlier, time, thread, lock, later, edges, rfl, hb, alarm⟩ := hi h
      exact ⟨earlier, time, thread, lock, later ++ [op], edges, by simp, hb, alarm⟩
    · simp [hk] at hn
    · obtain ⟨edges, alarm⟩ := Alarm.of_recorded (by rwa [LockGraph.run_append_singleton])
      exact ⟨ops, time, thread, lock, [], edges, rfl, rfl, alarm⟩

-- The chain of a circular wait are requests that have not been answered yet, so that a request does not
-- count once it has been denied. Until then it counts, and if a thread of the chain ever gets its lock,
-- then a request of the chain has been denied before.
theorem circular_wait_until_denied (wf : WellFormed ops)
    (h : before ++ [hazard] <+: (run ops).hazards) (hk : hazard.kind = .circularWait) :
    ∃ earlier time thread lock later edges,
      let asked := earlier ++ [.request time thread lock]
      ops = asked ++ later ∧ (run earlier).hazards = before ∧
      Alarm earlier time thread lock edges hazard ∧
      (∀ e ∈ edges, pending e.waiter asked = some e.lock ∧ e.lock ∈ taken e.holder asked) ∧
      ∀ meanwhile, meanwhile <+: later →
        (∀ e ∈ edges, ∀ time, .deny time e.waiter e.lock ∉ meanwhile) →
        ∀ e ∈ edges, pending e.waiter (asked ++ meanwhile) = some e.lock ∧
          ∀ time waited, .grant time e.waiter e.lock waited ∉ meanwhile := by
  obtain ⟨earlier, time, thread, lock, later, edges, rfl, rfl, alarm⟩ := exists_alarm h hk
  rw [List.append_cons] at wf
  have s := (wf.of_prefix (List.prefix_append ..)).agrees.stuck alarm.found
  refine ⟨earlier, time, thread, lock, later, edges, List.append_cons .., rfl, alarm, ?_, ?_⟩
  · exact fun e he => ⟨s.pending e he, s.taken e he⟩
  · intro meanwhile hp nd e he
    have wf := wf.of_prefix ((List.prefix_append_right_inj _).mpr hp)
    obtain ⟨s, hn⟩ := s.append_of_undenied wf nd
    exact ⟨s.pending e he, hn e he⟩

-- The second thread only tries to take its second lock. It is turned away and gives back its first one.
def backedOff : List Operation :=
  crossed ++
    [.deny .zero ⟨"B"⟩ ⟨1⟩, .release .zero ⟨"B"⟩ ⟨2⟩, .grant .zero ⟨"A"⟩ ⟨2⟩ .zero]

theorem backedOff_wellFormed : WellFormed backedOff := by
  have h₇ : WellFormed (backedOff.take 7) := .step crossed_wellFormed (.deny rfl)
  have h₈ : WellFormed (backedOff.take 8) := .step h₇ (.release (by decide) rfl)
  exact .step h₈ (.grant rfl (by simp [backedOff, crossed, taken, Operation.isRelease]))

theorem backedOff_idle (thread : ThreadId) : pending thread backedOff = none := by
  simp [backedOff, crossed, pending, Operation.pending]
  grind

def backedOffHazard : Hazard :=
  { kind := .circularWait
    threads := ["B", "A"]
    locks := ["Lock#1", "Lock#2"]
    message := "circular wait: B waits for Lock#1 held by A -> A waits for Lock#2 held by B" }

theorem backedOff_hazards : (run backedOff).hazards = [backedOffHazard] := by
  cbv

-- A circular wait is recorded by the request that is denied right after it.
theorem backedOff_reported :
    WellFormed backedOff ∧
    backedOff = crossed.take 5 ++ .request .zero ⟨"B"⟩ ⟨1⟩ :: .deny .zero ⟨"B"⟩ ⟨1⟩ :: backedOff.drop 7 ∧
    (run (crossed.take 5)).hazards = [] ∧
    (run (crossed.take 5 ++ [.request .zero ⟨"B"⟩ ⟨1⟩])).hazards = [backedOffHazard] ∧
    (run backedOff).hazards = [backedOffHazard] ∧ ∀ thread, pending thread backedOff = none :=
  ⟨backedOff_wellFormed, rfl, by cbv, by cbv, backedOff_hazards, backedOff_idle⟩

theorem backedOff_until_denied :
    WellFormed backedOff ∧ [backedOffHazard] <+: (run backedOff).hazards ∧
    backedOffHazard.kind = .circularWait ∧
    ∃ earlier time thread lock later edges,
      backedOff = earlier ++ [.request time thread lock] ++ later ∧
      Alarm earlier time thread lock edges backedOffHazard ∧
      ∃ e ∈ edges, ∃ time, .deny time e.waiter e.lock ∈ later := by
  have hp : [] ++ [backedOffHazard] <+: (run backedOff).hazards :=
    backedOff_hazards ▸ List.prefix_rfl
  obtain ⟨earlier, time, thread, lock, later, edges, ho, _, alarm, _, stay⟩ :=
    circular_wait_until_denied backedOff_wellFormed hp rfl
  refine ⟨backedOff_wellFormed, hp, rfl, earlier, time, thread, lock, later, edges, ho, alarm, ?_⟩
  by_contra nd
  obtain ⟨e, he, _⟩ := List.mem_map.mp (findCycle?_lasso alarm.found).mem_waiters
  -- Otherwise a thread of the chain would still wait.
  have hw := (stay later List.prefix_rfl (by simpa using nd) e he).left
  simp [←ho, backedOff_idle] at hw

end PyVerify.Locks
