import PyVerify.Locks.Graph
import PyVerify.Locks.Report

/-!
# Programs with watched locks

Threads take and release locks that guard a number each, and a detector watches every step. A lock
that is held blocks whoever takes it, the holder included; a lock that is released goes to the one
thread that waits for it. A detector that was stopped records nothing more, but the locks still work.
-/

namespace PyVerify.Locks

/-- A lock and the number that it guards. -/
structure WatchedLock where
  name : String
  value : Int
  owner : Option ThreadId
  waiters : List ThreadId
deriving Repr

structure Simulation where
  graph : LockGraph
  stopped : Bool
  locks : List WatchedLock
  /-- The locks that threads hold, by position, in the order in which they were taken. -/
  guards : List (ThreadId × Nat)
  ended : List ThreadId
deriving Repr

/-- What a thread does, or what is done to the detector. Locks are given by position. -/
inductive Action where
  | lock (thread : ThreadId) (lock : Nat)
  | tryLock (thread : ThreadId) (lock : Nat)
  | unlock (thread : ThreadId) (lock : Nat)
  | add (thread : ThreadId) (lock : Nat) (n : Int)
  /-- The thread ends, well or not, and lets go of its locks. -/
  | finish (thread : ThreadId)
  | stop
deriving DecidableEq, Repr

/-- What came of an action. -/
inductive Effect where
  | granted (value : Int)
  | blocked
  | denied
  | released
  /-- Another thread was waiting for the lock and has it now. -/
  | handedOver (thread : ThreadId) (value : Int)
  | added (value : Int)
  | ended
  | stopped
  /-- The thread cannot do this; nothing has changed. -/
  | refused
deriving DecidableEq, Repr

namespace Simulation

def lockId (position : Nat) : LockId := ⟨position + 1⟩

/-- The name of the next lock; a lock without a name is called by its number. -/
def nextName (s : Simulation) (name : String) : String :=
  if name.isEmpty then (lockId s.locks.length).name else name

def addLock (s : Simulation) (name : String) : Simulation :=
  let full := s.nextName name
  { s with
    graph := if s.stopped then s.graph else s.graph.registerLock (lockId s.locks.length) full
    locks := s.locks ++ [⟨full, 0, none, []⟩] }

def ofNames (names : List String) : Simulation :=
  names.foldl addLock ⟨.empty, false, [], [], []⟩

/-- Lets the detector see a step, unless it was stopped. -/
def watch (s : Simulation) (f : LockGraph → LockGraph) : Simulation :=
  if s.stopped then s else { s with graph := f s.graph }

def request (s : Simulation) (thread : ThreadId) (lock : Nat) : Simulation :=
  s.watch fun g => ((g.registerThread thread thread.label).request .zero thread (lockId lock)).1

def grant (s : Simulation) (thread : ThreadId) (lock : Nat) : Simulation :=
  s.watch fun g => (g.grant .zero thread (lockId lock) .zero).1

def deny (s : Simulation) (thread : ThreadId) (lock : Nat) : Simulation :=
  s.watch fun g => g.deny .zero thread (lockId lock)

def release (s : Simulation) (thread : ThreadId) (lock : Nat) : Simulation :=
  s.watch fun g => g.release .zero thread (lockId lock)

def update (s : Simulation) (lock : Nat) (f : WatchedLock → WatchedLock) : Simulation :=
  { s with locks := s.locks.modify lock f }

/-- The thread has the lock from now on. -/
def give (s : Simulation) (thread : ThreadId) (lock : Nat) : Simulation :=
  let s := s.update lock fun l => { l with owner := some thread, waiters := l.waiters.erase thread }
  { s.grant thread lock with guards := s.guards ++ [(thread, lock)] }

/-- The thread lets go of the lock. -/
def drop (s : Simulation) (thread : ThreadId) (lock : Nat) : Simulation :=
  let s := (s.release thread lock).update lock fun l => { l with owner := none }
  { s with guards := s.guards.erase (thread, lock) }

def isBlocked (s : Simulation) (thread : ThreadId) : Bool :=
  s.locks.any fun l => l.waiters.contains thread

/-- The thread has a name, is not blocked, and has not ended. -/
def canAct (s : Simulation) (thread : ThreadId) : Bool :=
  !thread.label.isEmpty && !s.isBlocked thread && !s.ended.contains thread

def hasGuard (s : Simulation) (thread : ThreadId) (lock : Nat) : Bool :=
  s.guards.contains (thread, lock)

/-- The locks that a thread has, in the order in which it took them. -/
def guardsOf (s : Simulation) (thread : ThreadId) : List Nat :=
  (s.guards.filter (·.1 = thread)).map Prod.snd

/-- Numbers have 64 bits. -/
def wrap (n : Int) : Int := n.bmod UInt64.size

def lockAction (s : Simulation) (thread : ThreadId) (lock : Nat) (l : WatchedLock) :
    Simulation × Effect :=
  let s := s.request thread lock
  if l.owner.isNone then (s.give thread lock, .granted l.value)
  else (s.update lock fun l => { l with waiters := l.waiters ++ [thread] }, .blocked)

def tryAction (s : Simulation) (thread : ThreadId) (lock : Nat) (l : WatchedLock) :
    Simulation × Effect :=
  let s := s.request thread lock
  if l.owner.isNone then (s.give thread lock, .granted l.value)
  else (s.deny thread lock, .denied)

def unlockAction (s : Simulation) (thread : ThreadId) (lock : Nat) (l : WatchedLock) :
    Simulation × Effect :=
  if !s.hasGuard thread lock then (s, .refused)
  else match l.waiters with
    | [] => (s.drop thread lock, .released)
    | [next] => ((s.drop thread lock).give next lock, .handedOver next l.value)
    | _ => (s, .refused)

def addAction (s : Simulation) (thread : ThreadId) (lock : Nat) (n : Int) (l : WatchedLock) :
    Simulation × Effect :=
  if !s.hasGuard thread lock then (s, .refused)
  else
    let value := wrap (l.value + n)
    (s.update lock fun l => { l with value }, .added value)

/-- A thread with a lock that another one waits for cannot end. -/
def finishAction (s : Simulation) (thread : ThreadId) : Simulation × Effect :=
  let guards := s.guardsOf thread
  if guards.any fun lock => (s.locks[lock]?).any fun l => !l.waiters.isEmpty then (s, .refused)
  else
    let s := guards.foldl (fun s lock => s.drop thread lock) s
    ({ s with ended := s.ended ++ [thread] }, .ended)

/-- What a thread does with a lock, if it can act and the lock exists. -/
def withLock (s : Simulation) (thread : ThreadId) (lock : Nat)
    (f : WatchedLock → Simulation × Effect) : Simulation × Effect :=
  match s.locks[lock]? with
  | some l => if s.canAct thread then f l else (s, .refused)
  | none => (s, .refused)

def step (s : Simulation) : Action → Simulation × Effect
  | .lock thread lock => s.withLock thread lock (s.lockAction thread lock)
  | .tryLock thread lock => s.withLock thread lock (s.tryAction thread lock)
  | .unlock thread lock => s.withLock thread lock (s.unlockAction thread lock)
  | .add thread lock n => s.withLock thread lock (s.addAction thread lock n)
  | .finish thread => if s.canAct thread then s.finishAction thread else (s, .refused)
  | .stop => ({ s with stopped := true }, .stopped)

/-- The report on a program that ended like this. -/
def report (s : Simulation) (status : RunStatus) (elapsed timeout : Binary64) : DetectionReport :=
  { status, hazards := s.graph.hazards, events := s.graph.events, elapsed, timeout, output := none }

end Simulation
end PyVerify.Locks
