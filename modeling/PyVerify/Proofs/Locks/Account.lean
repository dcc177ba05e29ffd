import Mathlib.Data.Finset.Card
import PyVerify.Proofs.Locks.Blocked
import PyVerify.Proofs.Locks.Inversion

namespace PyVerify.Locks

-- The kind of the hazard that an event tells of.
def EventKind.hazard? : EventKind → Option HazardKind
  | .hazard kind  => some kind
  | _             => none

-- A hazard with the locks that it is about, in the order in which they were found.
abbrev Find := List LockId × Hazard

def Find.key (f : Find) : LockGraph.Key :=
  (f.2.kind, LockGraph.sortLocks f.1)

namespace LockGraph

-- The hazard that an operation returns.
def answer (g : LockGraph) : Operation → Option Hazard
  | .request time thread lock       => (g.request time thread lock).2
  | .grant time thread lock waited  => (g.grant time thread lock waited).2
  | _                               => none

-- The same hazards and events have been recorded.
structure SameRecord (g₁ g₂ : LockGraph) : Prop where
  reported  : g₂.reported = g₁.reported
  hazards   : g₂.hazards = g₁.hazards
  events    : g₂.events = g₁.events

-- What a step adds to the record of a graph: some finds, each with its key and its event. The first
-- one is returned.
structure Files (g : LockGraph) (result : LockGraph × Option Hazard) (new : List Find) : Prop where
  reported  : result.1.reported = g.reported ++ new.map Find.key
  hazards   : result.1.hazards = g.hazards ++ new.map Prod.snd
  events    : ∃ log, result.1.events = g.events ++ log ∧
    log.filterMap (·.kind.hazard?) = new.map fun f => f.2.kind
  answer    : result.2 = (new.map Prod.snd).head?

namespace Files

variable {g g' : LockGraph} {r r' : LockGraph × Option Hazard} {new more : List Find}

theorem refl (g : LockGraph) : Files g (g, none) [] where
  reported  := by simp
  hazards   := by simp
  events    := ⟨[], by simp, rfl⟩
  answer    := rfl

theorem congr (s : SameRecord g g') (f : Files g' r new) : Files g r new where
  reported  := s.reported ▸ f.reported
  hazards   := s.hazards ▸ f.hazards
  events    := s.events ▸ f.events
  answer    := f.answer

theorem of_sameRecord (s : SameRecord g g') : Files g (g', none) [] :=
  (refl g').congr s

theorem trans (f : Files g r new) (f' : Files r.1 r' more) :
    Files g (r'.1, r.2.or r'.2) (new ++ more) where
  reported  := by simp [f'.reported, f.reported]
  hazards   := by simp [f'.hazards, f.hazards]
  events    := by
    obtain ⟨log, he, hk⟩ := f.events
    obtain ⟨log', he', hk'⟩ := f'.events
    exact ⟨log ++ log', by simp [he', he], by simp [hk, hk']⟩
  answer    := by simp [f.answer, f'.answer, List.head?_append]

end Files

-- What an operation that has led to a graph has found: the circle that a request leads into, or two
-- locks that a grant has put next to each other and that another thread had in reverse.
inductive Raises (g : LockGraph) : Operation → Find → Prop
  | circularWait (found : g.findCycle? thread = some edges) :
    Raises g (.request time thread lock) (edges.map WaitEdge.lock, g.circularWait edges)
  | orderingInversion (next : [a, b] <:+: g.acquired thread) (other : u ≠ thread)
      (reverse : (u, b, a) ∈ g.history) :
    Raises g (.grant time thread lock waited) ([a, b], g.orderingInversion thread u a b)

-- The same for one of the pairs that are checked.
def Reverses (g : LockGraph) (thread : ThreadId) (pair : LockId × LockId) (f : Find) : Prop :=
  ∃ u, u ≠ thread ∧ (u, pair.2, pair.1) ∈ g.history ∧
    f = ([pair.1, pair.2], g.orderingInversion thread u pair.1 pair.2)

theorem Records.reverses_iff {g₁ g₂ : LockGraph} (r : Records g₁ g₂) {thread : ThreadId}
    {pair : LockId × LockId} {f : Find} : g₂.Reverses thread pair f ↔ g₁.Reverses thread pair f := by
  simp [Reverses, orderingInversion, r.history, r.threadName, r.lockName]

section Steps

variable (g : LockGraph) (time : Binary64) (thread : ThreadId) (lock : LockId)

theorem registerThread_sameRecord (name : String) : SameRecord g (g.registerThread thread name) := by
  unfold registerThread
  split <;> exact ⟨rfl, rfl, rfl⟩

theorem rehash_sameRecord (history : List (ThreadId × LockId × LockId)) :
    SameRecord g (g.rehash history) := by
  unfold rehash
  split <;> exact ⟨rfl, rfl, rfl⟩

variable {g} in
theorem log_files {g' : LockGraph} {kind : EventKind} (s : SameRecord g g') (h : kind.hazard? = none) :
    Files g (g'.log time thread lock kind, none) [] where
  reported  := by simp [log, s.reported]
  hazards   := by simp [log, s.hazards]
  events    := ⟨[_], by rw [←s.events]; rfl, by simp [h]⟩
  answer    := rfl

-- A report is filed and returned, or neither.
theorem report_files (locks : List LockId) (hazard : Hazard) :
    ∃ new, Files g (g.report time thread lock locks hazard) new ∧ ∀ f ∈ new, f = (locks, hazard) := by
  unfold report
  dsimp only
  split
  case isTrue => exact ⟨[], .refl g, by simp⟩
  case isFalse =>
    have he : [LockEvent.mk time (g.threadName thread) (g.lockName lock) (.hazard hazard.kind)].filterMap
        (·.kind.hazard?) = [hazard.kind] := rfl
    exact ⟨[(locks, hazard)], ⟨rfl, rfl, ⟨_, rfl, he⟩, rfl⟩, by simp⟩

theorem checkPair_files (pair : LockId × LockId) :
    ∃ new, Files g (g.checkPair time thread pair.1 pair.2) new ∧ ∀ f ∈ new, g.Reverses thread pair f := by
  unfold checkPair
  split
  case h_1 => exact ⟨[], .refl g, by simp⟩
  case h_2 u hu =>
    obtain ⟨new, hf, hn⟩ := report_files g time thread pair.2 [pair.1, pair.2]
      (g.orderingInversion thread u pair.1 pair.2)
    obtain ⟨⟨t, p⟩, he, rfl⟩ := Option.map_eq_some_iff.mp hu
    have hm := List.mem_of_find?_eq_some he
    obtain ⟨ht, rfl⟩ : t ≠ thread ∧ p = (pair.2, pair.1) := by simpa using List.find?_some he
    exact ⟨new, hf, fun f h => ⟨t, ht, hm, hn f h⟩⟩

theorem checkPairs_files (pairs : List (LockId × LockId)) :
    ∃ new, Files g (g.checkPairs time thread pairs) new ∧
      ∀ f ∈ new, ∃ pair ∈ pairs, g.Reverses thread pair f := by
  induction pairs generalizing g
  case nil => exact ⟨[], .refl g, by simp⟩
  case cons pair pairs hi =>
    have r := checkPair_records g time thread pair.1 pair.2
    obtain ⟨new, hf, hn⟩ := checkPair_files g time thread pair
    obtain ⟨more, hf', hn'⟩ := hi (g.checkPair time thread pair.1 pair.2).1
    refine ⟨new ++ more, hf.trans hf', fun f h => ?_⟩
    cases List.mem_append.mp h
    case inl h => exact ⟨pair, List.mem_cons_self, hn f h⟩
    case inr h =>
      obtain ⟨p, hp, hv⟩ := hn' f h
      exact ⟨p, List.mem_cons_of_mem _ hp, r.reverses_iff.mp hv⟩

theorem request_files :
    ∃ new, Files g (g.request time thread lock) new ∧
      ∀ f ∈ new, Raises (g.request time thread lock).1 (.request time thread lock) f := by
  have r := request_records g time thread lock
  have hl : Files g ((g.await thread lock).log time thread lock .attempt, none) [] :=
    log_files time thread lock ⟨rfl, rfl, rfl⟩ rfl
  cases hc : (g.await thread lock).findCycle? thread
  case none =>
    refine ⟨[], ?_, by simp⟩
    rwa [request_eq, hc]
  case some edges =>
    obtain ⟨new, hf, hn⟩ := report_files ((g.await thread lock).log time thread lock .attempt) time thread
      lock (edges.map WaitEdge.lock) (g.circularWait edges)
    refine ⟨new, ?_, fun f h => ?_⟩
    · rw [request_eq, hc]
      exact hl.trans hf
    · have hw : (g.request time thread lock).1.circularWait edges = g.circularWait edges :=
        r.circularWait edges
      rw [hn f h, ←hw]
      exact .circularWait ((r.findCycle? thread).trans hc)

theorem grant_files (waited : Binary64) :
    ∃ new, Files g (g.grant time thread lock waited) new ∧
      ∀ f ∈ new, Raises (g.grant time thread lock waited).1 (.grant time thread lock waited) f := by
  have r := checkPairs_records ((g.take thread lock).log time thread lock (.acquired waited)) time thread
    (neighbours (g.acquired thread ++ [lock])).reverse
  have hl : Files g ((g.take thread lock).log time thread lock (.acquired waited), none) [] :=
    log_files time thread lock ⟨rfl, rfl, rfl⟩ rfl
  obtain ⟨new, hf, hn⟩ := checkPairs_files ((g.take thread lock).log time thread lock (.acquired waited))
    time thread (neighbours (g.acquired thread ++ [lock])).reverse
  rw [←grant_eq] at r hf
  refine ⟨new, hl.trans hf, fun f h => ?_⟩
  obtain ⟨⟨a, b⟩, hp, hv⟩ := hn f h
  obtain ⟨u, hu, hh, rfl⟩ := r.reverses_iff.mpr hv
  refine .orderingInversion ?_ hu hh
  rw [acquired_grant]
  exact mem_neighbours.mp (List.mem_reverse.mp hp)

theorem apply_files (op : Operation) :
    ∃ new, Files g (g.apply op, g.answer op) new ∧ ∀ f ∈ new, Raises (g.apply op) op f := by
  cases op
  case request        => exact request_files ..
  case grant          => exact grant_files ..
  case registerLock   => exact ⟨[], .of_sameRecord ⟨rfl, rfl, rfl⟩, by simp⟩
  case registerThread => exact ⟨[], .of_sameRecord (registerThread_sameRecord ..), by simp⟩
  case rehash         => exact ⟨[], .of_sameRecord (rehash_sameRecord ..), by simp⟩
  case deny           => exact ⟨[], log_files _ _ _ ⟨rfl, rfl, rfl⟩ rfl, by simp⟩
  case release        => exact ⟨[], log_files _ _ _ ⟨rfl, rfl, rfl⟩ rfl, by simp⟩

end Steps

-- A find and the operation that has filed it behind some other hazards.
def Raised (ops : List Operation) (before : List Hazard) (f : Find) : Prop :=
  ∃ earlier op, earlier ++ [op] <+: ops ∧ Raises (run (earlier ++ [op])) op f ∧
    (run earlier).hazards <+: before ∧ before ++ [f.2] <+: (run (earlier ++ [op])).hazards

theorem Raised.mono {ops : List Operation} {before : List Hazard} {f : Find} (h : Raised ops before f)
    (op : Operation) : Raised (ops ++ [op]) before f := by
  obtain ⟨earlier, last, hp, h⟩ := h
  exact ⟨earlier, last, hp.trans (List.prefix_append ..), h⟩

-- The record of a run consists of what its operations have found.
structure Accounts (ops : List Operation) (found : List Find) : Prop where
  files   : ∃ answer, Files empty (run ops, answer) found
  raised  : ∀ before f, before ++ [f] <+: found → Raised ops (before.map Prod.snd) f

theorem exists_accounts (ops : List Operation) : ∃ found, Accounts ops found := by
  induction ops using List.reverseRecOn
  case nil => exact ⟨[], ⟨none, .refl empty⟩, by simp⟩
  case append_singleton ops op hi =>
    obtain ⟨found, ⟨answer, hf⟩, hr⟩ := hi
    obtain ⟨new, hn, ha⟩ := apply_files (run ops) op
    rw [←run_append_singleton] at hn ha
    have hh : (run ops).hazards = found.map Prod.snd := hf.hazards
    refine ⟨found ++ new, ⟨_, hf.trans hn⟩, fun before f hp => ?_⟩
    have hc : before ++ [f] <+: found ∨ found <+: before := by
      obtain h | h := List.prefix_or_prefix_of_prefix hp (List.prefix_append ..)
      · exact .inl h
      · exact (List.prefix_concat_iff.mp h).imp_left fun (he : found = before ++ [f]) =>
          he ▸ List.prefix_rfl
    cases hc
    case inl h => exact (hr before f h).mono op
    case inr h =>
      obtain ⟨init, rfl⟩ := h
      have hm : f ∈ new := by
        rw [List.append_assoc, List.prefix_append_right_inj] at hp
        exact hp.subset (by simp)
      refine ⟨ops, op, List.prefix_rfl, ha f hm, ?_, ?_⟩
      · rw [hh, List.map_append]
        exact List.prefix_append ..
      · rw [hn.hazards, hh]
        simpa using hp.map Prod.snd

-- There are two kinds of hazards.
theorem length_hazard? (log : List LockEvent) :
    (log.filterMap (·.kind.hazard?)).length =
      log.countP (·.kind = .hazard .circularWait) + log.countP (·.kind = .hazard .orderingInversion) := by
  rw [List.length_filterMap_eq_countP]
  induction log
  case nil => rfl
  case cons event log hi =>
    simp only [List.countP_cons, hi]
    cases event.kind
    case hazard kind => cases kind <;> simp [EventKind.hazard?] <;> omega
    all_goals simp [EventKind.hazard?]

theorem events_mono (ops later : List Operation) : (run ops).events <+: (run (ops ++ later)).events := by
  induction later using List.reverseRecOn
  case nil => simp
  case append_singleton later op hi =>
    obtain ⟨new, hf, -⟩ := apply_files (run (ops ++ later)) op
    obtain ⟨log, he, -⟩ := hf.events
    rw [←List.append_assoc, run_append_singleton, he]
    exact hi.trans (List.prefix_append ..)

end LockGraph

open LockGraph

-- No hazard is lost or recorded twice: the record only grows, an operation returns the first of the
-- hazards that it has recorded, there are as many hazards as keys and as events of their kinds, and no
-- two hazards go back to the same kind and the same locks.
theorem hazards_accounted (ops : List Operation) :
    (∀ later, (run ops).events <+: (run (ops ++ later)).events ∧
      (run ops).hazards <+: (run (ops ++ later)).hazards) ∧
    (∀ op, ∃ new, (run (ops ++ [op])).hazards = (run ops).hazards ++ new ∧
      (run ops).answer op = new.head?) ∧
    (run ops).hazards.length = (run ops).reported.toFinset.card ∧
    (run ops).hazards.length =
      (run ops).events.countP (·.kind = .hazard .circularWait) +
        (run ops).events.countP (·.kind = .hazard .orderingInversion) ∧
    ∃ found : List Find, found.map Prod.snd = (run ops).hazards ∧ (found.map Find.key).Nodup ∧
      ∀ before f, before ++ [f] <+: found → Raised ops (before.map Prod.snd) f := by
  obtain ⟨found, ⟨_, hf⟩, hr⟩ := exists_accounts ops
  have hk : (run ops).reported = found.map Find.key := hf.reported
  have hh : (run ops).hazards = found.map Prod.snd := hf.hazards
  have hn := reported_nodup ops
  refine ⟨fun later => ⟨events_mono .., hazards_mono ..⟩, fun op => ?_, ?_, ?_, found, hh.symm, hk ▸ hn, hr⟩
  · obtain ⟨new, hf, -⟩ := apply_files (run ops) op
    exact ⟨new.map Prod.snd, by simpa using hf.hazards, hf.answer⟩
  · rw [List.toFinset_card_of_nodup hn, hk, hh]
    simp
  · obtain ⟨log, he, hl⟩ := hf.events
    have he : (run ops).events = log := he
    rw [←length_hazard?, he, hl, hh]
    simp

end PyVerify.Locks
