import PyVerify.Checker.Verification
import PyVerify.Locks.Monitor
import PyVerify.Settings.File

/-!
# Settings

How the checker and the detector are run, and where files are written. `Settings.load` takes them
from a settings file: the one that is named, or the nearest one above a place. Without a file the
standard settings hold.
-/

namespace PyVerify

structure Settings where
  /-- The file that the settings come from. -/
  file : Option String
  checker : CheckerSettings
  monitor : Locks.MonitorSettings
deriving Repr

/-- Why a settings file cannot be used. -/
inductive SettingsError where
  | unreadable (path : String)
  | malformed (path : String)
  /-- The detector's time limit is not a positive number. -/
  | badTimeout (path : String)
  | noInterpreter (path : String)
  | noBinary (path : String)
  /-- The detector's time limit is no duration. -/
  | timeoutTooLong (path : String)
deriving DecidableEq, Repr

def SettingsError.message : SettingsError → String
  | unreadable path => s!"config error: failed to read {path}"
  | malformed path => s!"config error: failed to parse {path}"
  | badTimeout path => s!"config error: {path}: detector.timeout_secs must be a positive number"
  | noInterpreter path => s!"config error: {path}: detector.python must not be empty"
  | noBinary path => s!"config error: {path}: checker.binary must not be empty"
  | timeoutTooLong path => s!"config error: {path}: detector.timeout_secs is too large"

def isBlank (s : String) : Bool :=
  Text.isBlankText s.toList

namespace Settings

def standard : Settings :=
  { file := none, checker := .standard, monitor := .standard }

/-- Where translations and checked files are written. -/
def directory (s : Settings) : String :=
  s.checker.directory

def withDirectory (s : Settings) (directory : String) : Settings :=
  { s with checker := { s.checker with directory } }

/-- With another checker, if one is given that is not blank. -/
def withBinary (s : Settings) : Option String → Settings
  | none => s
  | some binary => if isBlank binary then s else { s with checker := { s.checker with binary } }

/-- A relative directory starts where the settings file is. -/
def ofFile (path : String) (file : SettingsFile) : Except SettingsError Settings :=
  if !file.timeout.isPositive then .error (.badTimeout path)
  else if isBlank file.interpreter then .error (.noInterpreter path)
  else if isBlank file.binary then .error (.noBinary path)
  else match Duration.ofBinary64? file.timeout with
    | none => .error (.timeoutTooLong path)
    | some timeout =>
      .ok {
        file := some path
        checker := {
          binary := file.binary
          grace := file.grace
          outputLimit := file.outputLimit
          directory := Path.join ((Path.parent? path).getD ".") file.directory }
        monitor := { timeout, interpreter := file.interpreter } }

variable {m : Type → Type} [Monad m]

/-- The first of some paths that is a file. -/
def firstFile (host : Host m) : List String → m (Option String)
  | [] => return none
  | path :: rest => do
    if ← host.isFile path then return some path
    else firstFile host rest

/-- The nearest settings file above a place, which may itself be a file. -/
def find? (host : Host m) (place : String) : m (Option String) := do
  let start := (Path.absolute? (← host.current) place).getD place
  let directory := if ← host.isFile start then Path.parent? start else some start
  match directory with
  | none => return none
  | some directory =>
    firstFile host ((Path.ancestors directory).map fun d => Path.join d SettingsFile.fileName)

def read (host : Host m) (path : String) : m (Except SettingsError Settings) := do
  match ← host.read? path with
  | none => return .error (.unreadable path)
  | some text =>
    match SettingsFile.ofText? text with
    | none => return .error (.malformed path)
    | some file => return ofFile path file

def load (host : Host m) (place : String) (named : Option String) :
    m (Except SettingsError Settings) := do
  let path ← match named with
    | some path => pure (some path)
    | none => find? host place
  match path with
  | none => return .ok standard
  | some path => read host path

end Settings
end PyVerify
