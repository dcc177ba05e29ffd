import PyVerify.Locks.Graph

namespace PyVerify.Locks

-- What happens to a lock graph. The pairs of locks that threads took next to each other are a set: an
-- operation `rehash` may put them in any order at any time, and what is shown of all runs does not
-- depend on it.
inductive Operation where
  | registerLock (lock : LockId) (name : String)
  | registerThread (thread : ThreadId) (name : String)
  | request (time : Binary64) (thread : ThreadId) (lock : LockId)
  | grant (time : Binary64) (thread : ThreadId) (lock : LockId) (waited : Binary64)
  | deny (time : Binary64) (thread : ThreadId) (lock : LockId)
  | release (time : Binary64) (thread : ThreadId) (lock : LockId)
  | rehash (history : List (ThreadId × LockId × LockId))

namespace LockGraph

def rehash (g : LockGraph) (history : List (ThreadId × LockId × LockId)) : LockGraph :=
  if history.Perm g.history then { g with history } else g

def apply (g : LockGraph) : Operation → LockGraph
  | .registerLock lock name => g.registerLock lock name
  | .registerThread thread name => g.registerThread thread name
  | .request time thread lock => (g.request time thread lock).1
  | .grant time thread lock waited => (g.grant time thread lock waited).1
  | .deny time thread lock => g.deny time thread lock
  | .release time thread lock => g.release time thread lock
  | .rehash history => g.rehash history

-- The graph after some operations on a fresh one.
def run (ops : List Operation) : LockGraph :=
  ops.foldl apply empty

@[simp]
theorem run_nil : run [] = empty := rfl

@[simp]
theorem run_append_singleton (ops : List Operation) (op : Operation) :
    run (ops ++ [op]) = (run ops).apply op := by
  simp [run]

-- The same threads have and wait for the same locks.
structure SameMaps (g₁ g₂ : LockGraph) : Prop where
  held   : g₂.held = g₁.held
  waits  : g₂.waits = g₁.waits
  holder : g₂.holder = g₁.holder
  order  : g₂.order = g₁.order

namespace SameMaps

variable {g₁ g₂ g₃ : LockGraph}

theorem trans (s₁ : SameMaps g₁ g₂) (s₂ : SameMaps g₂ g₃) : SameMaps g₁ g₃ where
  held   := s₂.held.trans s₁.held
  waits  := s₂.waits.trans s₁.waits
  holder := s₂.holder.trans s₁.holder
  order  := s₂.order.trans s₁.order

theorem holds (s : SameMaps g₁ g₂) (thread : ThreadId) : g₂.holds thread = g₁.holds thread := by
  simp [LockGraph.holds, s.held]

theorem waiting (s : SameMaps g₁ g₂) (thread : ThreadId) : g₂.waiting thread = g₁.waiting thread := by
  simp [LockGraph.waiting, s.waits]

theorem acquired (s : SameMaps g₁ g₂) (thread : ThreadId) :
    g₂.acquired thread = g₁.acquired thread := by
  simp [LockGraph.acquired, s.order]

end SameMaps

-- The second graph differs from the first one in what has been recorded at most.
structure Records (g₁ g₂ : LockGraph) : Prop extends SameMaps g₁ g₂ where
  threadNames : g₂.threadNames = g₁.threadNames
  lockNames   : g₂.lockNames = g₁.lockNames
  history     : g₂.history = g₁.history

namespace Records

variable {g₁ g₂ g₃ : LockGraph}

theorem refl (g : LockGraph) : Records g g :=
  ⟨⟨rfl, rfl, rfl, rfl⟩, rfl, rfl, rfl⟩

theorem trans (r₁ : Records g₁ g₂) (r₂ : Records g₂ g₃) : Records g₁ g₃ where
  toSameMaps  := r₁.toSameMaps.trans r₂.toSameMaps
  threadNames := r₂.threadNames.trans r₁.threadNames
  lockNames   := r₂.lockNames.trans r₁.lockNames
  history     := r₂.history.trans r₁.history

theorem lockName (r : Records g₁ g₂) (lock : LockId) : g₂.lockName lock = g₁.lockName lock := by
  simp [LockGraph.lockName, r.lockNames]

theorem threadName (r : Records g₁ g₂) (thread : ThreadId) :
    g₂.threadName thread = g₁.threadName thread := by
  simp [LockGraph.threadName, r.threadNames]

end Records

variable (g : LockGraph) (time : Binary64) (thread : ThreadId) (lock : LockId)

theorem log_records (kind : EventKind) : Records g (g.log time thread lock kind) :=
  ⟨⟨rfl, rfl, rfl, rfl⟩, rfl, rfl, rfl⟩

theorem report_records (locks : List LockId) (hazard : Hazard) :
    Records g (g.report time thread lock locks hazard).1 := by
  unfold report
  dsimp only
  split
  · exact .refl g
  · exact ⟨⟨rfl, rfl, rfl, rfl⟩, rfl, rfl, rfl⟩

theorem checkPair_records (first second : LockId) :
    Records g (g.checkPair time thread first second).1 := by
  unfold checkPair
  split
  · exact .refl g
  · exact report_records ..

theorem checkPairs_cons (pair : LockId × LockId) (pairs : List (LockId × LockId)) :
    (g.checkPairs time thread (pair :: pairs)).1 =
      ((g.checkPair time thread pair.1 pair.2).1.checkPairs time thread pairs).1 := rfl

theorem checkPairs_records (pairs : List (LockId × LockId)) :
    Records g (g.checkPairs time thread pairs).1 := by
  induction pairs generalizing g
  case nil => exact .refl g
  case cons pair pairs hi => exact (checkPair_records g time thread pair.1 pair.2).trans (hi _)

-- The graph with a new wait edge, before the search for a circle.
def await : LockGraph :=
  { g with waits := g.waits.insert thread (insertLock lock (g.waiting thread)) }

-- The graph with a new holder, before the search for inversions.
def take : LockGraph :=
  { g.stopWaiting thread lock with
    held    := g.held.insert thread (insertLock lock (g.holds thread))
    holder  := g.holder.insert lock thread
    order   := g.order.insert thread (g.acquired thread ++ [lock])
    history := g.history ++ (neighbours (g.acquired thread ++ [lock])).map (thread, ·) }

-- The graph without a holder.
def letGo : LockGraph :=
  { g with
    held   := g.held.insert thread ((g.holds thread).filter (· ≠ lock))
    order  := g.order.insert thread ((g.acquired thread).erase lock)
    holder := if g.holder.get? lock = some thread then g.holder.erase lock else g.holder }

theorem request_eq :
    g.request time thread lock =
      match (g.await thread lock).findCycle? thread with
      | none => ((g.await thread lock).log time thread lock .attempt, none)
      | some edges =>
        ((g.await thread lock).log time thread lock .attempt).report time thread lock
          (edges.map WaitEdge.lock) (g.circularWait edges) := rfl

theorem request_records : Records (g.await thread lock) (g.request time thread lock).1 := by
  rw [request_eq]
  split
  · exact log_records ..
  · exact (log_records ..).trans (report_records ..)

theorem grant_eq (waited : Binary64) :
    g.grant time thread lock waited =
      ((g.take thread lock).log time thread lock (.acquired waited)).checkPairs time thread
        (neighbours (g.acquired thread ++ [lock])).reverse := by
  simp [grant, take, log, acquired, stopWaiting, threadName, lockName, holds]

theorem grant_records (waited : Binary64) :
    Records (g.take thread lock) (g.grant time thread lock waited).1 := by
  rw [grant_eq]
  exact (log_records ..).trans (checkPairs_records ..)

theorem deny_records : Records (g.stopWaiting thread lock) (g.deny time thread lock) :=
  log_records ..

theorem release_records : Records (g.letGo thread lock) (g.release time thread lock) :=
  log_records ..

theorem registerLock_sameMaps (name : String) : SameMaps g (g.registerLock lock name) :=
  ⟨rfl, rfl, rfl, rfl⟩

theorem registerThread_sameMaps (name : String) : SameMaps g (g.registerThread thread name) := by
  unfold registerThread
  split <;> exact ⟨rfl, rfl, rfl, rfl⟩

theorem rehash_sameMaps (history : List (ThreadId × LockId × LockId)) :
    SameMaps g (g.rehash history) := by
  unfold rehash
  split <;> exact ⟨rfl, rfl, rfl, rfl⟩

section Names

variable (name : String) (history : List (ThreadId × LockId × LockId))

@[simp]
theorem history_registerThread : (g.registerThread thread name).history = g.history := by
  unfold registerThread
  split <;> rfl

@[simp]
theorem reported_registerThread : (g.registerThread thread name).reported = g.reported := by
  unfold registerThread
  split <;> rfl

@[simp]
theorem hazards_registerThread : (g.registerThread thread name).hazards = g.hazards := by
  unfold registerThread
  split <;> rfl

@[simp]
theorem mem_history_rehash {entry : ThreadId × LockId × LockId} :
    entry ∈ (g.rehash history).history ↔ entry ∈ g.history := by
  unfold rehash
  split
  case isTrue h => exact h.mem_iff
  case isFalse => rfl

@[simp]
theorem reported_rehash : (g.rehash history).reported = g.reported := by
  unfold rehash
  split <;> rfl

@[simp]
theorem hazards_rehash : (g.rehash history).hazards = g.hazards := by
  unfold rehash
  split <;> rfl

end Names

@[simp]
theorem mem_insertLock {l : LockId} {locks : List LockId} :
    l ∈ insertLock lock locks ↔ l = lock ∨ l ∈ locks := by
  induction locks
  case nil => simp [insertLock]
  case cons hd tl hi => grind [insertLock]

theorem getD_insert {κ ν : Type} [DecidableEq κ] (t : Table κ ν) (key k : κ) (value default : ν) :
    ((t.insert key value).get? k).getD default =
      if k = key then value else (t.get? k).getD default := by
  rw [Table.get?_insert]
  split <;> rfl

section Views

variable {t : ThreadId}

@[simp]
theorem holds_await : (g.await thread lock).holds t = g.holds t := rfl

@[simp]
theorem acquired_await : (g.await thread lock).acquired t = g.acquired t := rfl

@[simp]
theorem holder_await : (g.await thread lock).holder = g.holder := rfl

@[simp]
theorem holds_stopWaiting : (g.stopWaiting thread lock).holds t = g.holds t := rfl

@[simp]
theorem acquired_stopWaiting : (g.stopWaiting thread lock).acquired t = g.acquired t := rfl

@[simp]
theorem holder_stopWaiting : (g.stopWaiting thread lock).holder = g.holder := rfl

@[simp]
theorem waiting_letGo : (g.letGo thread lock).waiting t = g.waiting t := rfl

@[simp]
theorem waiting_await :
    (g.await thread lock).waiting t =
      if t = thread then insertLock lock (g.waiting thread) else g.waiting t :=
  getD_insert ..

@[simp]
theorem waiting_stopWaiting :
    (g.stopWaiting thread lock).waiting t =
      if t = thread then (g.waiting thread).filter (· ≠ lock) else g.waiting t :=
  getD_insert ..

@[simp]
theorem waiting_take :
    (g.take thread lock).waiting t =
      if t = thread then (g.waiting thread).filter (· ≠ lock) else g.waiting t :=
  g.waiting_stopWaiting thread lock

@[simp]
theorem holds_take :
    (g.take thread lock).holds t =
      if t = thread then insertLock lock (g.holds thread) else g.holds t :=
  getD_insert ..

@[simp]
theorem holds_letGo :
    (g.letGo thread lock).holds t =
      if t = thread then (g.holds thread).filter (· ≠ lock) else g.holds t :=
  getD_insert ..

@[simp]
theorem acquired_take :
    (g.take thread lock).acquired t =
      if t = thread then g.acquired thread ++ [lock] else g.acquired t :=
  getD_insert ..

@[simp]
theorem acquired_letGo :
    (g.letGo thread lock).acquired t =
      if t = thread then (g.acquired thread).erase lock else g.acquired t :=
  getD_insert ..

@[simp]
theorem holder_take {l : LockId} :
    (g.take thread lock).holder.get? l = if l = lock then some thread else g.holder.get? l := by
  simp [take]

@[simp]
theorem holder_letGo {l : LockId} :
    (g.letGo thread lock).holder.get? l =
      if l = lock ∧ g.holder.get? lock = some thread then none else g.holder.get? l := by
  unfold letGo
  dsimp only
  split
  case isTrue h => simp [h]
  case isFalse h => simp [h]

end Views

end LockGraph

end PyVerify.Locks
