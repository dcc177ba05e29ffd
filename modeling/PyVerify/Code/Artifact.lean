import PyVerify.Code.Print
import PyVerify.Code.Translation
import PyVerify.Files.Host
import PyVerify.Parser.Statement
import PyVerify.Profile.Report

/-!
# Translated sources

An artifact is the C text of a source with the checks that it gives reason for. `Artifact.ofSource`
makes one, and `Artifact.save` writes it to a directory under a fixed name.
-/

namespace PyVerify

/-- Why a source has no artifact. -/
inductive TranslateError where
  | unreadable (failure : ReadFailure)
  /-- Nothing in the source is translated. -/
  | nothing

def TranslateError.nothingMessage : String :=
  "unsupported input: no translatable function definitions or module-level statements"

structure Artifact where
  text : String
  /-- The checks of the translated code, and then those that were recommended besides. -/
  checks : List Check
  functions : List String
  usesVerifier : Bool
deriving Repr

namespace Artifact

def fileName : String := "converted_code.c"

def exercises (a : Artifact) (c : Check) : Bool :=
  a.checks.contains c

def ofTranslation (t : Code.Translation) (recommended : List Check) : Artifact :=
  { text := t.program.text
    checks := addDistinct t.checks recommended
    functions := t.functions
    usesVerifier := t.usesVerifier }

def ofSource (source : List Char) (recommended : List Check) : Except TranslateError Artifact :=
  match Module.parse source with
  | .error failure => .error (.unreadable failure)
  | .ok m =>
    match Code.Translation.ofModule? m with
    | none => .error .nothing
    | some t => .ok (ofTranslation t recommended)

end Artifact

/-- An artifact after it was to be written to a file. -/
structure SavedArtifact extends Artifact where
  path : String
  failure : Option FileError
deriving Repr

namespace Artifact

def save {m : Type → Type} [Monad m] (host : Host m) (a : Artifact) (directory : String) :
    m SavedArtifact := do
  let path := Path.join directory fileName
  match ← host.save directory path a.text with
  | .ok () => return { a with path, failure := none }
  | .error e => return { a with path, failure := some e }

end Artifact

namespace SavedArtifact

def saved? (a : SavedArtifact) : Option String :=
  if a.failure.isNone then some a.path else none

def notSaved (a : SavedArtifact) : String :=
  s!"could not save {a.path}"

def warning? (a : SavedArtifact) : Option String :=
  a.failure.map fun e => s!"{a.notSaved}: {e.message}"

def render (a : SavedArtifact) : String :=
  let ending := if a.text.toList.getLast? == some '\n' then "\n" else "\n\n"
  let saving := match a.warning? with
    | none => s!"saved to {a.path}\n"
    | some warning => s!"warning: {warning}\n"
  let checks :=
    if a.checks.isEmpty then ""
    else "checks exercised: " ++ ", ".intercalate (a.checks.map Check.name) ++ "\n"
  let convention :=
    if a.usesVerifier then "verifier convention detected: nondet values are unsigned\n" else ""
  a.text ++ ending ++ saving ++ checks ++ convention

def toJson (a : SavedArtifact) : Json :=
  .object [
    ("c_source", .string a.text),
    ("saved_path", .ofOption .string a.saved?),
    ("save_warning", .ofOption .string a.warning?),
    ("checks", .strings (a.checks.map Check.name)),
    ("functions", .strings a.functions),
    ("uses_verifier_convention", .bool a.usesVerifier)]

end SavedArtifact
end PyVerify
