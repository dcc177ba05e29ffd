import PyVerify.Json.Basic
import PyVerify.Process.Duration

/-!
# Runs of programs

A run is what is left of a supervised program: its exit code, what it wrote, and whether it was
stopped at its time limit.
-/

namespace PyVerify

structure Run where
  /-- None if the program was stopped by a signal. -/
  exitCode : Option Int
  stdout : String
  stderr : String
  timedOut : Bool
  duration : Duration
deriving Repr

namespace Run

/-- Both texts, the second on a line of its own. -/
def combine (stdout stderr : String) : String :=
  if stdout.isEmpty || stderr.isEmpty || stdout.toList.getLast? == some '\n' then stdout ++ stderr
  else stdout ++ "\n" ++ stderr

/-- All that the program wrote. -/
def output (r : Run) : String :=
  combine r.stdout r.stderr

def succeeded (r : Run) : Bool :=
  r.exitCode == some 0 && !r.timedOut

def toJson (r : Run) : Json :=
  .object [
    ("exit_code", .ofOption .ofInt r.exitCode),
    ("stdout", .string r.stdout),
    ("stderr", .string r.stderr),
    ("timed_out", .bool r.timedOut),
    ("duration", .ofBinary64 r.duration.seconds)]

end Run

/-- Why a program could not be run. -/
inductive LaunchError where
  | notFound
  | denied
  | notDirectory
deriving DecidableEq, Repr

def LaunchError.message (program : String) : LaunchError → String
  | notFound => s!"program not found: {program}"
  | denied => s!"failed to run {program}: Permission denied (os error 13)"
  | notDirectory => s!"failed to run {program}: Not a directory (os error 20)"

/-- What running a program does: its name, its arguments, and its time limit. -/
abbrev Programs := String → List String → Duration → Except LaunchError Run

end PyVerify
