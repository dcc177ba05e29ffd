import PyVerify.Checker.Excerpt
import PyVerify.Checker.Ladder
import PyVerify.Files.Host

/-!
# Verification requests

A request runs the model checker on a file until its ladder ends. A backend answers invocations; it
may look at all that came before.
-/

namespace PyVerify

/-- Why the checker gave no answer. -/
inductive BackendError where
  /-- There is no such checker. -/
  | notFound
  | launch (program : String) (cause : LaunchError)
  /-- The time limit with its slack is no duration. -/
  | limitTooLong
deriving Repr

/-- Answers the last of the invocations made so far. -/
abbrev Backend := List Invocation → Except BackendError Attempt

/-- An attempt as it is reported. -/
structure AttemptRecord where
  stage : Stage
  configuration : Configuration
  commandLine : String
  classification : Classification
  exitCode : Option Int
  duration : Duration
  /-- The option that is left out from here on. -/
  repaired : Option String
deriving Repr

structure Outcome where
  classification : Classification
  /-- The output of the last attempt, cut down if it is long. -/
  output : String
  /-- The size of the whole output. -/
  outputSize : Nat
  commandLine : String
  configuration : Configuration
  enabled : List String
  guidance : Option String
  file : String
  attempts : List AttemptRecord
deriving Repr

namespace Outcome

def success (o : Outcome) : Bool :=
  o.classification == .success

def isInformative (o : Outcome) : Bool :=
  o.classification.isVerdict

end Outcome

/-- A request after it ended: the invocations in order, and what came of them. -/
structure Session where
  invocations : List Invocation
  result : Except BackendError Outcome

/-- What all attempts of a request share. -/
structure Request where
  program : String
  file : String
  outputLimit : Nat
deriving Repr

namespace Request

def record (stage : Stage) (i : Invocation) (a : Attempt) (t : Transition) : AttemptRecord :=
  { stage
    configuration := i.configuration
    commandLine := i.commandLine
    classification := a.classify
    exitCode := a.exitCode
    duration := a.duration
    repaired := match t with
      | .repair option => some option
      | _ => none }

def outcome (r : Request) (i : Invocation) (a : Attempt) (classification : Classification)
    (attempts : List AttemptRecord) : Outcome :=
  { classification
    output := truncate a.output r.outputLimit
    outputSize := a.output.utf8ByteSize
    commandLine := i.commandLine
    configuration := i.configuration
    enabled := i.configuration.enabled
    guidance := classification.guidance?
    file := r.file
    attempts }

/-- Climbs a ladder, after the invocations and attempts made so far. -/
def climb (r : Request) (backend : Backend) (made : List Invocation) (attempts : List AttemptRecord)
    (ladder : Ladder) : Session :=
  let i := ladder.invocation r.program r.file
  let made := made ++ [i]
  match backend made with
  | .error e => ⟨made, .error e⟩
  | .ok a =>
    let step := ladder.advance a.classify a.output i
    let attempts := attempts ++ [record ladder.stage i a step.1]
    match _h : step.1.ending? with
    | some c => ⟨made, .ok (r.outcome i a c attempts)⟩
    | none => r.climb backend made attempts step.2
termination_by ladder.budget
decreasing_by exact Ladder.budget_advance ‹_›

def run (r : Request) (backend : Backend) (configuration : Configuration) : Session :=
  r.climb backend [] [] (.start configuration)

end Request

/-! ## On a host -/

/-- Where and how to run the checker. -/
structure CheckerSettings where
  binary : String
  /-- Seconds that the checker is given beyond its own time limit. -/
  grace : Nat
  outputLimit : Nat
  directory : String
deriving Repr

inductive VerifyError where
  | backend (cause : BackendError)
  /-- The checked file could not be written. -/
  | save (path : String) (cause : FileError)
deriving Repr

namespace CheckerSettings

def fileName : String := "esbmc_verify.c"

def standard : CheckerSettings :=
  { binary := "esbmc", grace := 10, outputLimit := 5000, directory := "." }

/-- The backend that starts the program of an invocation. -/
def backend (s : CheckerSettings) (programs : Programs) : Backend := fun made =>
  match made.getLast? with
  | none => .error .notFound
  | some i =>
    let limit := i.configuration.timeout + s.grace
    if UInt64.size ≤ limit then .error .limitTooLong
    else match programs i.program i.arguments (.ofSeconds limit) with
      | .error .notFound => .error .notFound
      | .error cause => .error (.launch i.program cause)
      | .ok run => .ok ⟨run.exitCode, run.output, run.timedOut, run.duration⟩

variable {m : Type → Type} [Monad m]

/-- Writes the C text to a file and runs a request on it. -/
def verifyWith (s : CheckerSettings) (host : Host m) (backend : m Backend) (text : String)
    (configuration : Configuration) : m (Except FileError Session) := do
  let file := Path.join s.directory fileName
  match ← host.save s.directory file text with
  | .error e => return .error e
  | .ok () => return .ok (Request.run ⟨s.binary, file, s.outputLimit⟩ (← backend) configuration)

/-- Runs a request with the host's programs. -/
def verify (s : CheckerSettings) (host : Host m) (text : String) (configuration : Configuration) :
    m (Except VerifyError Outcome) := do
  let backend := do return s.backend (← host.programs)
  match ← s.verifyWith host backend text configuration with
  | .error e => return .error (.save (Path.join s.directory fileName) e)
  | .ok session =>
    match session.result with
    | .ok o => return .ok o
    | .error e => return .error (.backend e)

end CheckerSettings

namespace BackendError

def installGuidance : String :=
  "Install ESBMC from https://github.com/esbmc/esbmc, " ++
  "or point to it with --esbmc-path /path/to/esbmc or the ESBMC_PATH environment variable."

def message (binary : String) : BackendError → String
  | notFound => s!"model checker `{binary}` could not be started"
  | launch program cause => cause.message program
  | limitTooLong => "overflow when adding durations"

end BackendError
end PyVerify
