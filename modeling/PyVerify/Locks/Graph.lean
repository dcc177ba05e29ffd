import PyVerify.Locks.Cycle
import PyVerify.Process.Duration

/-!
# Lock graphs

The state of a lock detector: who holds and who waits for which lock, in which order each thread has
taken its locks, and what has been recorded so far. The graph only watches: that a lock is held by
one thread at most is up to the locks.
-/

namespace PyVerify.Locks

structure LockGraph where
  threadNames : Table ThreadId String
  lockNames : Table LockId String
  /-- The locks that a thread holds, by number. -/
  held : Table ThreadId (List LockId)
  /-- The locks that a thread waits for, by number. -/
  waits : Table ThreadId (List LockId)
  holder : Table LockId ThreadId
  /-- The locks that a thread holds, the oldest first. -/
  order : Table ThreadId (List LockId)
  /-- The pairs of locks that were next to each other in a thread's order. -/
  history : List (ThreadId × LockId × LockId)
  /-- The hazards so far by kind and locks, the locks by number. -/
  reported : List (HazardKind × List LockId)
  events : List LockEvent
  hazards : List Hazard
deriving Repr

namespace LockGraph

def empty : LockGraph :=
  { threadNames := .empty, lockNames := .empty, held := .empty, waits := .empty, holder := .empty
    order := .empty, history := [], reported := [], events := [], hazards := [] }

def registerLock (g : LockGraph) (lock : LockId) (name : String) : LockGraph :=
  { g with lockNames := g.lockNames.insert lock name }

/-- Names a thread that has no name yet. -/
def registerThread (g : LockGraph) (thread : ThreadId) (name : String) : LockGraph :=
  if (g.threadNames.get? thread).isSome then g
  else { g with threadNames := g.threadNames.insert thread name }

def holds (g : LockGraph) (thread : ThreadId) : List LockId :=
  (g.held.get? thread).getD []

def waiting (g : LockGraph) (thread : ThreadId) : List LockId :=
  (g.waits.get? thread).getD []

def acquired (g : LockGraph) (thread : ThreadId) : List LockId :=
  (g.order.get? thread).getD []

def threadName (g : LockGraph) (thread : ThreadId) : String :=
  (g.threadNames.get? thread).getD thread.label

def lockName (g : LockGraph) (lock : LockId) : String :=
  (g.lockNames.get? lock).getD lock.name

def findCycle? (g : LockGraph) (start : ThreadId) : Option (List WaitEdge) :=
  Locks.findCycle? g.waiting g.holder start

/-- Adds a lock to a list that is sorted by number, unless it is there. -/
def insertLock (lock : LockId) : List LockId → List LockId
  | [] => [lock]
  | l :: rest =>
    if lock.number < l.number then lock :: l :: rest
    else if lock = l then l :: rest
    else l :: insertLock lock rest

/-- Puts a lock into a list that is sorted by number, also if it is there. -/
def sortedCons (lock : LockId) : List LockId → List LockId
  | [] => [lock]
  | l :: rest => if lock.number ≤ l.number then lock :: l :: rest else l :: sortedCons lock rest

def sortLocks (locks : List LockId) : List LockId :=
  locks.foldr sortedCons []

def log (g : LockGraph) (time : Binary64) (thread : ThreadId) (lock : LockId) (kind : EventKind) :
    LockGraph :=
  { g with events := g.events ++ [⟨time, g.threadName thread, g.lockName lock, kind⟩] }

/-- Records a hazard unless one with the same kind and locks has been recorded. -/
def report (g : LockGraph) (time : Binary64) (thread : ThreadId) (lock : LockId) (locks : List LockId)
    (hazard : Hazard) : LockGraph × Option Hazard :=
  let key := (hazard.kind, sortLocks locks)
  if g.reported.contains key then (g, none)
  else
    let g := g.log time thread lock (.hazard hazard.kind)
    ({ g with reported := g.reported ++ [key], hazards := g.hazards ++ [hazard] }, some hazard)

def edgeText (g : LockGraph) (e : WaitEdge) : String :=
  s!"{g.threadName e.waiter} waits for {g.lockName e.lock} held by {g.threadName e.holder}"

def circularWait (g : LockGraph) (edges : List WaitEdge) : Hazard :=
  { kind := .circularWait
    threads := edges.map fun e => g.threadName e.waiter
    locks := edges.map fun e => g.lockName e.lock
    message := "circular wait: " ++ " -> ".intercalate (edges.map g.edgeText) }

/-- A thread starts to wait for a lock; a circle that this closes is recorded. -/
def request (g : LockGraph) (time : Binary64) (thread : ThreadId) (lock : LockId) :
    LockGraph × Option Hazard :=
  let g := g.log time thread lock .attempt
  let g := { g with waits := g.waits.insert thread (insertLock lock (g.waiting thread)) }
  match g.findCycle? thread with
  | none => (g, none)
  | some edges => g.report time thread lock (edges.map WaitEdge.lock) (g.circularWait edges)

/-- Neighbours in a list. -/
def neighbours : List LockId → List (LockId × LockId)
  | a :: b :: rest => (a, b) :: neighbours (b :: rest)
  | _ => []

/-- Another thread that took two locks one right after the other. -/
def otherWith? (g : LockGraph) (thread : ThreadId) (first second : LockId) : Option ThreadId :=
  (g.history.find? fun (t, pair) => t ≠ thread ∧ pair = (first, second)).map Prod.fst

def orderingInversion (g : LockGraph) (thread other : ThreadId) (first second : LockId) : Hazard :=
  let me := g.threadName thread
  let them := g.threadName other
  let a := g.lockName first
  let b := g.lockName second
  { kind := .orderingInversion
    threads := [me, them]
    locks := [a, b]
    message :=
      s!"inconsistent lock ordering: {me} acquires {a} then {b}, but {them} acquires them in reverse order" }

/-- Records that a thread took two locks in an order that another thread took in reverse. -/
def checkPair (g : LockGraph) (time : Binary64) (thread : ThreadId) (first second : LockId) :
    LockGraph × Option Hazard :=
  match g.otherWith? thread second first with
  | none => (g, none)
  | some other =>
    g.report time thread second [first, second] (g.orderingInversion thread other first second)

/-- Checks pairs one after the other; the first hazard is the answer. -/
def checkPairs (g : LockGraph) (time : Binary64) (thread : ThreadId) :
    List (LockId × LockId) → LockGraph × Option Hazard
  | [] => (g, none)
  | (first, second) :: rest =>
    let (g, hazard) := g.checkPair time thread first second
    let (g, later) := g.checkPairs time thread rest
    (g, hazard.or later)

/-- The thread no longer waits for the lock. -/
def stopWaiting (g : LockGraph) (thread : ThreadId) (lock : LockId) : LockGraph :=
  { g with waits := g.waits.insert thread ((g.waiting thread).filter (· ≠ lock)) }

/-- A thread takes a lock; pairs that it now holds in an order taken in reverse are recorded. -/
def grant (g : LockGraph) (time : Binary64) (thread : ThreadId) (lock : LockId) (waited : Binary64) :
    LockGraph × Option Hazard :=
  let g := g.stopWaiting thread lock
  let g := { g with
    held := g.held.insert thread (insertLock lock (g.holds thread))
    holder := g.holder.insert lock thread
    order := g.order.insert thread (g.acquired thread ++ [lock]) }
  let g := g.log time thread lock (.acquired waited)
  let pairs := neighbours (g.acquired thread)
  let g := { g with history := g.history ++ pairs.map (thread, ·) }
  g.checkPairs time thread pairs.reverse

/-- A thread gives up on a lock. -/
def deny (g : LockGraph) (time : Binary64) (thread : ThreadId) (lock : LockId) : LockGraph :=
  (g.stopWaiting thread lock).log time thread lock .denied

/-- A thread lets go of a lock. -/
def release (g : LockGraph) (time : Binary64) (thread : ThreadId) (lock : LockId) : LockGraph :=
  let g := { g with
    held := g.held.insert thread ((g.holds thread).filter (· ≠ lock))
    order := g.order.insert thread ((g.acquired thread).erase lock)
    holder := if g.holder.get? lock = some thread then g.holder.erase lock else g.holder }
  g.log time thread lock .released

end LockGraph
end PyVerify.Locks
