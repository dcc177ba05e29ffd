import PyVerify.Locks.Hazard

/-!
# Detection reports

How a monitored program ended and what the detector has recorded, as text and as JSON.
-/

namespace PyVerify.Locks

inductive RunStatus where
  | completed
  /-- A program ended with this exit code, or by a signal. -/
  | failed (exitCode : Option Int)
  | panicked (message : String)
  /-- A program was still running at its time limit, which counts as a deadlock. -/
  | timedOut
deriving DecidableEq, Repr

/-- What is said of a panic that comes without a message. -/
def RunStatus.unknownPanic : String := "monitored program panicked"

def RunStatus.members : RunStatus → List (String × Json)
  | completed => [("status", .string "completed")]
  | failed exitCode => [("status", .string "failed"), ("exit_code", .ofOption .ofInt exitCode)]
  | panicked message => [("status", .string "panicked"), ("message", .string message)]
  | timedOut => [("status", .string "timed-out")]

structure DetectionReport where
  status : RunStatus
  hazards : List Hazard
  events : List LockEvent
  /-- Seconds that the program ran, and seconds that it was given. -/
  elapsed : Binary64
  timeout : Binary64
  /-- What a program wrote. -/
  output : Option String
deriving Repr

namespace DetectionReport

def isDeadlocked (r : DetectionReport) : Bool :=
  r.status = .timedOut

/-- The program ended well and no hazard was recorded. -/
def isClean (r : DetectionReport) : Bool :=
  r.status = .completed && r.hazards.isEmpty

def hazardsOf (r : DetectionReport) (kind : HazardKind) : List Hazard :=
  r.hazards.filter (·.kind = kind)

def statusText (r : DetectionReport) : String :=
  if r.isClean then
    let seconds := r.elapsed.fixed 3
    s!"No deadlocks detected ({seconds}s)\n"
  else match r.status with
    | .timedOut =>
      s!"DEADLOCK: execution did not complete within {r.timeout.plain}s\n" ++
        "Threads are blocked waiting for each other.\n"
    | .panicked message => s!"Monitored program panicked: {message}\n"
    | .failed (some code) => s!"Monitored program exited with status {code}\n"
    | .failed none => "Monitored program was terminated by a signal\n"
    | .completed => "Potential deadlock issues detected\n"

def hazardsText (r : DetectionReport) : String :=
  if r.hazards.isEmpty then ""
  else
    let lines := r.hazards.mapIdx fun i h => s!"  {i + 1}. [{h.kind.name}] {h.message}\n"
    s!"\n{r.hazards.length} potential deadlock issue(s):\n" ++ String.join lines

def eventsText (r : DetectionReport) : String :=
  if r.events.isEmpty then ""
  else
    let lines := r.events.map fun e => s!"  {e.render}\n"
    s!"\nLock event trace ({r.events.length} events):\n" ++ String.join lines

def outputText (r : DetectionReport) : String :=
  match r.output with
  | none | some "" => ""
  | some output => s!"\nProgram output:\n{output}\n"

def render (r : DetectionReport) : String :=
  r.statusText ++ r.hazardsText ++ r.eventsText ++ r.outputText

def toJson (r : DetectionReport) : Json :=
  .object (r.status.members ++ [
    ("deadlocked", .bool r.isDeadlocked),
    ("hazards", .array (r.hazards.map Hazard.toJson)),
    ("events", .array (r.events.map LockEvent.toJson)),
    ("elapsed_secs", .ofBinary64 r.elapsed),
    ("timeout_secs", .ofBinary64 r.timeout),
    ("output", .ofOption .string r.output)])

end DetectionReport
end PyVerify.Locks
