import PyVerify.Checker.Report
import PyVerify.Code.Artifact
import PyVerify.Command.Basic
import PyVerify.Settings.Basic

/-!
# Running commands

What a command writes and how it ends, on any host. A command fails if it cannot do its work, and is
aborted where nothing is said about an input; else it succeeds or not by what it found.
-/

namespace PyVerify

/-- Why a command could not do its work. -/
inductive CommandError where
  | settings (cause : SettingsError)
  | unreadable (path : String)
  | source (path : String) (cause : ReadFailure)
  /-- Nothing in the source is translated. -/
  | nothing (path : String)
  | verify (binary : String) (cause : VerifyError)
  | launch (program : String) (cause : LaunchError)
  /-- The time limit is not a positive number. -/
  | badTimeout
  /-- The time limit is no duration. -/
  | timeoutTooLong

namespace CommandError

def isAbort : CommandError → Bool
  | settings (.timeoutTooLong _) => true
  | source _ .aborted => true
  | verify _ (.backend .limitTooLong) => true
  | timeoutTooLong => true
  | _ => false

def message : CommandError → String
  | settings cause => cause.message
  | unreadable path => s!"failed to read {path}"
  | source path (.error cause) => s!"{path}: parse error: {cause.message}"
  | source path .aborted => s!"{path}: aborted"
  | nothing path => s!"{path}: {TranslateError.nothingMessage}"
  | verify binary (.backend .notFound) =>
    BackendError.notFound.message binary ++ "\n" ++ BackendError.installGuidance
  | verify binary (.backend cause) => cause.message binary
  | verify _ (.save path cause) => s!"could not write {path}: {cause.message}"
  | launch program cause => cause.message program
  | badTimeout => "--timeout must be a positive number of seconds"
  | timeoutTooLong => "--timeout is too large"

end CommandError

/-- What a command that did its work writes, and whether what it found is good. -/
structure Finding where
  text : String
  isGood : Bool
deriving Repr

namespace Finding

/-- A report in one of its two forms. -/
def report (asJson : Bool) (json : Json) (text : String) (isGood : Bool) : Finding :=
  ⟨if asJson then json.pretty ++ "\n" else text, isGood⟩

end Finding

namespace Command

variable {m : Type → Type} [Monad m]

/-- The settings file comes first, then the checker of the environment, then options. -/
def settings (host : Host m) (file checker : Option String) (place : String)
    (binary directory : Option String) : ExceptT CommandError m Settings := do
  match ← (Settings.load host place file : m _) with
  | .error e => throw (.settings e)
  | .ok s =>
    let s := (s.withBinary checker).withBinary binary
    match directory with
    | some directory => return s.withDirectory directory
    | none => return s

def readFile (host : Host m) (path : String) : ExceptT CommandError m String := do
  match ← host.read? path with
  | some text => return text
  | none => throw (.unreadable path)

def profile (path text : String) : ExceptT CommandError m Profile := do
  match Module.parse text.toList with
  | .ok module => return .ofModule module
  | .error cause => throw (.source path cause)

/-- The artifact of a source with the checks that its profile gives reason for. -/
def artifact (host : Host m) (s : Settings) (path text : String) (p : Profile) :
    ExceptT CommandError m SavedArtifact := do
  match Artifact.ofSource text.toList p.recommended with
  | .ok a => (a.save host s.directory : m _)
  | .error (.unreadable cause) => throw (.source path cause)
  | .error .nothing => throw (.nothing path)

def analysis (host : Host m) (path : String) (json : Bool) : ExceptT CommandError m Finding := do
  let p ← profile path (← readFile host path)
  return .report json p.toJson p.render true

def translation (host : Host m) (s : Settings) (path : String) (json : Bool) :
    ExceptT CommandError m Finding := do
  let text ← readFile host path
  let p ← profile path text
  let a ← artifact host s path text p
  let value : Json := .object [
    ("source", .string path),
    ("analysis", p.toJson),
    ("translation", a.toJson)]
  return .report json value a.render true

namespace VerifyCommand

/-- Recommended checks need a translated source. -/
def configuration (c : VerifyCommand) (artifact : Option SavedArtifact) : Configuration :=
  let flags := match artifact with
    | some a => if c.recommended then c.flags.union (.ofChecks a.checks) else c.flags
    | none => c.flags
  let start := Configuration.ofFlags flags
  let unwound := c.unwind.elim start start.withUnwind
  c.timeout.elim unwound unwound.withTimeout

end VerifyCommand

def verification (host : Host m) (s : Settings) (c : VerifyCommand) : ExceptT CommandError m Finding := do
  let text ← readFile host c.file
  let translated ←
    if Path.hasExtension c.file "c" then pure none
    else do
      let p ← profile c.file text
      some <$> artifact host s c.file text p
  let checked := (translated.map (·.text)).getD text
  let configuration := VerifyCommand.configuration c translated
  match ← (s.checker.verify host checked configuration : m _) with
  | .error cause => throw (.verify s.checker.binary cause)
  | .ok outcome =>
    let part := match translated with
      | some a => [("translation", a.toJson)]
      | none => []
    let value : Json :=
      .object ([("source", .string c.file)] ++ part ++ [("verification", outcome.toJson)])
    return .report c.json value outcome.render outcome.success

/-- The time limit of a monitored program. -/
def MonitorCommand.limit (c : MonitorCommand) (s : Settings) : Except CommandError Duration :=
  match c.timeout with
  | none => .ok s.monitor.timeout
  | some seconds =>
    if !seconds.isPositive then .error .badTimeout
    else match Duration.ofBinary64? seconds with
      | some limit => .ok limit
      | none => .error .timeoutTooLong

def monitoring (host : Host m) (s : Settings) (c : MonitorCommand) :
    ExceptT CommandError m Finding := do
  let limit ← MonitorCommand.limit c s
  let programs ← host.programs
  let interpreter := c.interpreter.getD s.monitor.interpreter
  let (started, report) :=
    if Path.hasExtension c.program "py" then
      (interpreter, Locks.monitorScript programs interpreter c.program c.arguments limit)
    else (c.program, Locks.monitorProgram programs c.program c.arguments limit)
  match report with
  | .error cause => throw (.launch started cause)
  | .ok r => return .report c.json r.toJson r.render r.isClean

end Command

namespace CommandLine

variable {m : Type → Type} [Monad m]

/-- Runs a command; the environment may name a checker. -/
def find (host : Host m) (checker : Option String) (line : CommandLine) :
    ExceptT CommandError m Finding := do
  let settings := Command.settings host line.settingsFile checker
  match line.command with
  | .analyze file json => Command.analysis host file json
  | .translate file directory json =>
    Command.translation host (← settings file none directory) file json
  | .verify c => Command.verification host (← settings c.file c.binary c.directory) c
  | .monitor c => Command.monitoring host (← settings "." none none) c

end CommandLine

/-- How a command ended and what it wrote. -/
structure CommandResult where
  exitCode : Nat
  stdout : String
  stderr : String
deriving Repr

namespace CommandResult

open Command (Refusal)

def versionText : String := "vigil 0.1.0\n"

def helpText : String :=
  "usage: vigil [--verbose] [--config FILE] COMMAND\n\n" ++
  "  analyze FILE [--json]\n" ++
  "  translate FILE [--out-dir DIRECTORY] [--json]\n" ++
  "  verify FILE [--overflow] [--bounds] [--div-by-zero] [--deadlock] [--pointer]\n" ++
  "    [--memory-leak] [--recommended] [--unwind COUNT] [--timeout SECONDS]\n" ++
  "    [--esbmc-path PATH] [--out-dir DIRECTORY] [--json]\n" ++
  "  monitor [--timeout SECONDS] [--python PATH] [--json] PROGRAM [ARGUMENTS]\n"

def ofRefusal : Refusal → CommandResult
  | .help => ⟨0, helpText, ""⟩
  | .version => ⟨0, versionText, ""⟩
  | .usage e => ⟨2, "", e.message ++ "\n\n" ++ helpText⟩

def ofFinding : Except CommandError Finding → CommandResult
  | .ok found => ⟨if found.isGood then 0 else 1, found.text, ""⟩
  | .error e => ⟨if e.isAbort then 101 else 1, "", e.message ++ "\n"⟩

end CommandResult

/-- Runs the command that words name. -/
def runWords {m : Type → Type} [Monad m] (host : Host m) (checker : Option String)
    (words : List String) : m CommandResult := do
  match CommandLine.ofWords words with
  | .error refusal => return .ofRefusal refusal
  | .ok line => return .ofFinding (← (line.find host checker).run)

end PyVerify
