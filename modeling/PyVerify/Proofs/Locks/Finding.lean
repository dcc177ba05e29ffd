import Mathlib.Data.List.Forall2
import Mathlib.Data.List.Induction
import Mathlib.Data.List.Nodup
import PyVerify.Proofs.Locks.Effect

namespace PyVerify.Locks

open List

namespace LockGraph

section Sorting

theorem sortedCons_perm (lock : LockId) (locks : List LockId) :
    sortedCons lock locks ~ lock :: locks := by
  induction locks
  case nil => rfl
  case cons hd tl hi =>
    unfold sortedCons
    split
    · rfl
    · exact (hi.cons hd).trans (.swap ..)

theorem sortLocks_perm (locks : List LockId) : sortLocks locks ~ locks := by
  induction locks
  case nil => rfl
  case cons hd tl hi => exact (sortedCons_perm ..).trans (hi.cons hd)

theorem sortedCons_pairwise {lock : LockId} {locks : List LockId}
    (h : locks.Pairwise (·.number ≤ ·.number)) :
    (sortedCons lock locks).Pairwise (·.number ≤ ·.number) := by
  induction locks
  case nil => simp [sortedCons]
  case cons hd tl hi =>
    obtain ⟨hd_le, ht⟩ := pairwise_cons.mp h
    unfold sortedCons
    split
    case isTrue hl =>
      refine pairwise_cons.mpr ⟨fun l hm => ?_, h⟩
      cases mem_cons.mp hm
      case inl he => exact he ▸ hl
      case inr hm => exact Nat.le_trans hl (hd_le l hm)
    case isFalse hl =>
      refine pairwise_cons.mpr ⟨fun l hm => ?_, hi ht⟩
      cases mem_cons.mp <| (sortedCons_perm ..).mem_iff.mp hm
      case inl he => exact he ▸ Nat.le_of_not_le hl
      case inr hm => exact hd_le l hm

theorem sortLocks_pairwise (locks : List LockId) :
    (sortLocks locks).Pairwise (·.number ≤ ·.number) := by
  induction locks
  case nil => exact .nil
  case cons hi => exact sortedCons_pairwise hi

-- Sorting forgets the order of the locks and nothing else.
theorem sortLocks_eq_iff {locks₁ locks₂ : List LockId} :
    sortLocks locks₁ = sortLocks locks₂ ↔ locks₁ ~ locks₂ := by
  constructor
  case mp =>
    intro h
    exact (sortLocks_perm locks₁).symm.trans (h ▸ sortLocks_perm locks₂)
  case mpr =>
    intro h
    have hp := (sortLocks_perm locks₁).trans <| h.trans (sortLocks_perm locks₂).symm
    apply hp.eq_of_pairwise _ (sortLocks_pairwise locks₁) (sortLocks_pairwise locks₂)
    intro l₁ l₂ _ _ h₁₂ h₂₁
    have : l₁.number = l₂.number := Nat.le_antisymm h₁₂ h₂₁
    cases l₁; cases l₂; simp_all

end Sorting

-- What a hazard is filed under.
abbrev Key := HazardKind × List LockId

variable {g : LockGraph} {time : Binary64} {thread : ThreadId} {lock : LockId}

-- The key of a report is known afterwards, and nothing else is new.
theorem mem_reported_report {locks : List LockId} {hazard : Hazard} {key : Key} :
    key ∈ (g.report time thread lock locks hazard).1.reported ↔
      key ∈ g.reported ∨ key = (hazard.kind, sortLocks locks) := by
  unfold report
  dsimp only
  split
  case isTrue h =>
    rw [contains_iff_mem] at h
    exact ⟨.inl, fun hk => hk.elim id (· ▸ h)⟩
  case isFalse => simp [log]

theorem mem_reported_request {key : Key} :
    key ∈ (g.request time thread lock).1.reported ↔
      key ∈ g.reported ∨
        ∃ edges, (g.await thread lock).findCycle? thread = some edges ∧
          key = (.circularWait, sortLocks (edges.map WaitEdge.lock)) := by
  rw [request_eq]
  split
  case h_1 h =>
    rw [h]
    simp [log, await]
  case h_2 h =>
    rw [h, mem_reported_report]
    simp [log, await, circularWait]

-- A property of what has been recorded is kept by an operation if it is kept by filing one hazard
-- under a new key, with the names of its locks.
section Induction

variable {P : List Key → List Hazard → Prop}

theorem report_induction {locks : List LockId} {hazard : Hazard}
    (h : P g.reported g.hazards)
    (file : (hazard.kind, sortLocks locks) ∉ g.reported →
      P (g.reported ++ [(hazard.kind, sortLocks locks)]) (g.hazards ++ [hazard])) :
    P (g.report time thread lock locks hazard).1.reported
      (g.report time thread lock locks hazard).1.hazards := by
  unfold report
  dsimp only
  split
  case isTrue => exact h
  case isFalse hn => exact file (by simpa using hn)

theorem checkPairs_induction {pairs : List (LockId × LockId)} {name : LockId → String}
    (hn : g.lockName = name) (h : P g.reported g.hazards)
    (file : ∀ {reported hazards hazard} {locks : List LockId}, P reported hazards →
      (hazard.kind, sortLocks locks) ∉ reported → hazard.locks = locks.map name →
      P (reported ++ [(hazard.kind, sortLocks locks)]) (hazards ++ [hazard])) :
    P (g.checkPairs time thread pairs).1.reported (g.checkPairs time thread pairs).1.hazards := by
  induction pairs generalizing g
  case nil => exact h
  case cons pair pairs hi =>
    have r := checkPair_records g time thread pair.1 pair.2
    apply hi (funext r.lockName |>.trans hn)
    unfold checkPair
    split
    · exact h
    · exact report_induction h fun hk => file h hk (by simp [orderingInversion, hn])

theorem apply_induction {op : Operation}
    (h : P g.reported g.hazards)
    (file : ∀ {reported hazards hazard} {locks : List LockId}, P reported hazards →
      (hazard.kind, sortLocks locks) ∉ reported → hazard.locks = locks.map g.lockName →
      P (reported ++ [(hazard.kind, sortLocks locks)]) (hazards ++ [hazard])) :
    P (g.apply op).reported (g.apply op).hazards := by
  cases op <;> unfold apply <;> dsimp only
  case registerThread => simpa using h
  case request =>
    rw [request_eq]
    split
    · exact h
    · exact report_induction h fun hk => file h hk (by simp [circularWait])
  case grant =>
    rw [grant_eq]
    exact checkPairs_induction rfl h file
  case rehash => simpa using h
  all_goals exact h

end Induction

theorem reported_nodup (ops : List Operation) : (run ops).reported.Nodup := by
  induction ops using List.reverseRecOn
  case nil => exact .nil
  case append_singleton ops op hi =>
    rw [run_append_singleton]
    apply apply_induction (P := fun reported _ => reported.Nodup) hi
    intro _ _ _ _ h hk _
    exact Nodup.append h (nodup_singleton _) (by simpa using hk)

-- A hazard is of the kind that it is filed under and has the names that the locks had at some time.
structure Describes (ops : List Operation) (key : Key) (hazard : Hazard) : Prop where
  kind  : hazard.kind = key.1
  names : ∃ earlier, earlier <+: ops ∧ hazard.locks ~ key.2.map (run earlier).lockName

theorem Describes.mono {ops later : List Operation} {key : Key} {hazard : Hazard}
    (d : Describes ops key hazard) : Describes (ops ++ later) key hazard where
  kind  := d.kind
  names := d.names.imp fun _ h => h.imp_left (·.trans (prefix_append ..))

-- Keys and hazards go together.
theorem reported_describes_hazards (ops : List Operation) :
    Forall₂ (Describes ops) (run ops).reported (run ops).hazards := by
  induction ops using List.reverseRecOn
  case nil => exact .nil
  case append_singleton ops op hi =>
    rw [run_append_singleton]
    apply apply_induction (P := Forall₂ (Describes (ops ++ [op]))) (hi.imp fun _ _ d => d.mono)
    intro _ _ hazard locks h _ hl
    refine rel_append h (.cons ⟨rfl, ops, prefix_append .., ?_⟩ .nil)
    exact hl ▸ (sortLocks_perm locks).symm.map _

-- The hazards so far, each with its key.
def findings (g : LockGraph) : List (Key × Hazard) :=
  g.reported.zip g.hazards

theorem findings_keys (ops : List Operation) :
    (run ops).findings.map Prod.fst = (run ops).reported :=
  map_fst_zip (Nat.le_of_eq (reported_describes_hazards ops).length_eq)

theorem findings_hazards (ops : List Operation) :
    (run ops).findings.map Prod.snd = (run ops).hazards :=
  map_snd_zip (Nat.le_of_eq (reported_describes_hazards ops).length_eq.symm)

theorem findings_mono (ops later : List Operation) :
    (run ops).findings <+: (run (ops ++ later)).findings := by
  induction later using List.reverseRecOn
  case nil => simp
  case append_singleton later op hi =>
    rw [←append_assoc, run_append_singleton]
    have hl := (reported_describes_hazards (ops ++ later)).length_eq
    let P (reported : List Key) (hazards : List Hazard) : Prop :=
      reported.length = hazards.length ∧ (run ops).findings <+: reported.zip hazards
    have h : P ((run (ops ++ later)).apply op).reported ((run (ops ++ later)).apply op).hazards := by
      apply apply_induction (P := P) ⟨hl, hi⟩
      rintro _ _ _ _ ⟨hl, hp⟩ _ _
      refine ⟨by simp [hl], ?_⟩
      rw [zip_append hl]
      exact hp.trans (prefix_append ..)
    exact h.right

theorem hazards_mono (ops later : List Operation) :
    (run ops).hazards <+: (run (ops ++ later)).hazards := by
  simpa only [findings_hazards] using (findings_mono ops later).map Prod.snd

end LockGraph

open LockGraph

-- A hazard of a kind about some locks, in any order, is among those that have been recorded.
structure Recorded
    (ops : List Operation) (kind : HazardKind) (locks : List LockId) (hazard : Hazard) : Prop where
  mem   : ((kind, sortLocks locks), hazard) ∈ (run ops).findings
  kind  : hazard.kind = kind
  names : ∃ earlier, earlier <+: ops ∧ hazard.locks ~ locks.map (run earlier).lockName

namespace Recorded

variable {ops : List Operation} {kind : HazardKind} {locks : List LockId} {hazard : Hazard}

theorem mono (r : Recorded ops kind locks hazard) (later : List Operation) :
    Recorded (ops ++ later) kind locks hazard where
  mem   := (findings_mono ops later).mem r.mem
  kind  := r.kind
  names := r.names.imp fun _ h => h.imp_left (·.trans (prefix_append ..))

theorem mem_hazards (r : Recorded ops kind locks hazard) : hazard ∈ (run ops).hazards :=
  findings_hazards ops ▸ mem_map_of_mem r.mem

-- Whatever has a key is recorded.
theorem exists_iff :
    (∃ hazard, Recorded ops kind locks hazard) ↔ (kind, sortLocks locks) ∈ (run ops).reported := by
  rw [←findings_keys, mem_map]
  constructor
  case mp =>
    rintro ⟨_, r⟩
    exact ⟨_, r.mem, rfl⟩
  case mpr =>
    rintro ⟨⟨key, hazard⟩, hm, hk⟩
    subst hk
    have d := forall₂_zip (reported_describes_hazards ops) hm
    obtain ⟨earlier, hp, hn⟩ := d.names
    exact ⟨hazard, hm, d.kind, earlier, hp, hn.trans ((sortLocks_perm locks).map _)⟩

end Recorded

end PyVerify.Locks
