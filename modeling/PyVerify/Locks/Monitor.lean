import PyVerify.Locks.Record
import PyVerify.Locks.Report
import PyVerify.Process.Run

/-!
# Monitored programs

A program that is still running at its time limit counts as deadlocked. A script runs under
instrumentation and besides reports hazards on its standard error.
-/

namespace PyVerify.Locks

/-- How programs are monitored. -/
structure MonitorSettings where
  timeout : Duration
  /-- The interpreter of scripts. -/
  interpreter : String
deriving Repr

namespace MonitorSettings

def standard : MonitorSettings :=
  { timeout := .ofSeconds 5, interpreter := "python3" }

end MonitorSettings

def RunStatus.ofRun (run : Run) : RunStatus :=
  if run.timedOut then .timedOut
  else if run.exitCode = some 0 then .completed
  else .failed run.exitCode

def DetectionReport.ofRun (run : Run) (hazards : List Hazard) (timeout : Duration) : DetectionReport :=
  { status := .ofRun run
    hazards
    events := []
    elapsed := run.duration.seconds
    timeout := timeout.seconds
    output := some run.output }

/-- Runs a program that reports no hazards. -/
def monitorProgram (programs : Programs) (program : String) (arguments : List String)
    (timeout : Duration) : Except LaunchError DetectionReport := do
  return .ofRun (← programs program arguments timeout) [] timeout

/-- The file that an interpreter runs first, so that a script's locks are instrumented. -/
def preludeFile : String := "/tmp/vigil-prelude-XXXXXX.py"

/-- Runs a script and takes its hazards out of its standard error. -/
def monitorScript (programs : Programs) (interpreter script : String) (arguments : List String)
    (timeout : Duration) : Except LaunchError DetectionReport := do
  let run ← programs interpreter (preludeFile :: script :: arguments) timeout
  let (hazards, rest) := splitHazards run.stderr
  return .ofRun { run with stderr := rest } hazards timeout

/-- The file that a script without one is written to. -/
def scratchFile : String := "/tmp/vigil-monitored-XXXXXX.py"

/-- Runs a script that is given as text. -/
def monitorText (programs : Programs) (interpreter : String) (timeout : Duration) :
    Except LaunchError DetectionReport :=
  monitorScript programs interpreter scratchFile [] timeout

end PyVerify.Locks
