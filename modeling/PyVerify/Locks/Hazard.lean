import PyVerify.Json.Basic
import PyVerify.Number.Fixed

/-!
# Hazards and events

What a lock detector records: each step that a thread takes with a lock, and the patterns of steps
that can end in a deadlock.
-/

namespace PyVerify.Locks

structure ThreadId where
  label : String
deriving DecidableEq, Repr

structure LockId where
  number : Nat
deriving DecidableEq, Repr

def LockId.name (l : LockId) : String :=
  s!"Lock#{l.number}"

inductive HazardKind where
  /-- Threads wait for each other in a circle. -/
  | circularWait
  /-- Two threads take two locks in different orders. -/
  | orderingInversion
deriving DecidableEq, Repr

namespace HazardKind

def all : List HazardKind := [circularWait, orderingInversion]

def name : HazardKind → String
  | circularWait => "circular-wait"
  | orderingInversion => "ordering-inversion"

def ofName? (name : String) : Option HazardKind :=
  all.find? (·.name == name)

end HazardKind

structure Hazard where
  kind : HazardKind
  /-- The names of the threads, in the order of the pattern. -/
  threads : List String
  /-- The names of the locks, in the same order. -/
  locks : List String
  message : String
deriving DecidableEq, Repr

def Hazard.toJson (h : Hazard) : Json :=
  .object [
    ("kind", .string h.kind.name),
    ("threads", .strings h.threads),
    ("locks", .strings h.locks),
    ("message", .string h.message)]

inductive EventKind where
  | attempt
  /-- The lock was taken after so many milliseconds. -/
  | acquired (waited : Binary64)
  | denied
  | released
  | hazard (kind : HazardKind)
deriving DecidableEq, Repr

namespace EventKind

def name : EventKind → String
  | attempt => "attempt"
  | acquired _ => "acquired"
  | denied => "denied"
  | released => "released"
  | hazard kind => kind.name

/-- The kind with this name. -/
def ofName? (name : String) (waited : Binary64) : Option EventKind :=
  ([attempt, acquired waited, denied, released] ++ HazardKind.all.map hazard).find? (·.name == name)

end EventKind

structure LockEvent where
  /-- Milliseconds since the detector was made. -/
  time : Binary64
  /-- The name of the thread. -/
  thread : String
  /-- The name of the lock. -/
  lock : String
  kind : EventKind
deriving DecidableEq, Repr

namespace LockEvent

def render (e : LockEvent) : String :=
  let what := match e.kind with
    | .attempt => s!"attempting to acquire {e.lock}"
    | .acquired waited =>
      let seconds := (waited.div (.ofNat 1000)).fixed 3
      s!"acquired {e.lock} (waited {seconds}s)"
    | .denied => s!"failed to acquire {e.lock}"
    | .released => s!"released {e.lock}"
    | .hazard .circularWait => s!"CIRCULAR WAIT detected on {e.lock}"
    | .hazard .orderingInversion => s!"LOCK ORDERING INVERSION detected on {e.lock}"
  s!"[{e.thread}] {what}"

def toJson (e : LockEvent) : Json :=
  let waited : List (String × Json) := match e.kind with
    | .acquired waited => [("waited_ms", .ofBinary64 waited)]
    | _ => []
  .object ([
    ("at_ms", .ofBinary64 e.time),
    ("thread", .string e.thread),
    ("lock", .string e.lock),
    ("kind", .string e.kind.name)] ++ waited)

end LockEvent
end PyVerify.Locks
