import PyVerify.Checker.Attempt
import PyVerify.Text.Blank
import PyVerify.Text.Line

/-!
# Excerpts

Long output is cut down to the lines that matter: the version, the verdicts, the first violation,
and the first errors and warnings. Versions and verdicts are always kept; the violation is kept if
it fits, and after it as many errors and warnings as fit.
-/

namespace PyVerify

/-- The lines that matter. -/
structure Excerpt where
  versions : List String
  verdicts : List String
  /-- The first lines of the first violation. -/
  violation : List String
  /-- The number of its other lines. -/
  omitted : Nat
  /-- The first errors and warnings. -/
  notes : List String
deriving Repr

namespace Excerpt

/-- How far the first violation has been read. -/
inductive Phase where
  | before
  | inside
  | after
deriving DecidableEq, Repr

def versionMarker : String := "ESBMC version"
def violationMarker : String := "Violated property:"
def violationLimit : Nat := 25
def noteLimit : Nat := 10

def empty : Excerpt := ⟨[], [], [], 0, []⟩

def isNote (line : String) : Bool :=
  let lower := String.ofList (line.toList.map Char.toLower)
  marks "error:" lower || marks "warning:" lower

def addViolation (e : Excerpt) (line : String) : Excerpt :=
  if e.violation.length < violationLimit then { e with violation := e.violation ++ [line] }
  else { e with omitted := e.omitted + 1 }

def addNote (e : Excerpt) (line : String) : Excerpt :=
  if isNote line && e.notes.length < noteLimit then { e with notes := e.notes ++ [line] } else e

/-- Reads one more line. A blank line ends the violation, unless it comes first in it. -/
def add (e : Excerpt) (phase : Phase) (line : String) : Excerpt × Phase :=
  if marks versionMarker line then ({ e with versions := e.versions ++ [line] }, phase)
  else if marks successMarker line || marks failureMarker line then
    ({ e with verdicts := e.verdicts ++ [line] }, if phase = .inside then .after else phase)
  else if marks violationMarker line then
    if phase = .before then (e.addViolation line, .inside) else (e, .after)
  else if phase = .inside then
    if Text.isBlankText line.toList && 1 < e.violation.length then (e, .after)
    else (e.addViolation line, .inside)
  else (e.addNote line, phase)

def addAll (e : Excerpt) (phase : Phase) : List String → Excerpt
  | [] => e
  | line :: rest =>
    let (e, phase) := e.add phase line
    e.addAll phase rest

def ofLines (lines : List String) : Excerpt :=
  empty.addAll .before lines

/-- Each line with a line feed behind it. -/
def paragraph (lines : List String) : String :=
  String.join (lines.map (· ++ "\n"))

def size (lines : List String) : Nat :=
  lines.foldr (fun l n => l.utf8ByteSize + 1 + n) 0

def violationText (e : Excerpt) : String :=
  if e.violation.isEmpty then ""
  else
    let more := if e.omitted = 0 then "" else s!"... [{e.omitted} more violation lines]\n"
    "\nViolation details:\n" ++ paragraph e.violation ++ more

/-- The first lines that fit. -/
def fitting (budget : Nat) : List String → List String
  | [] => []
  | line :: rest =>
    let size := line.utf8ByteSize + 1
    if size ≤ budget then line :: fitting (budget - size) rest else []

def footer (size : Nat) : String :=
  s!"\n[output truncated: {size} chars, key lines kept]"

/-- The excerpt as a text; `total` is the size of what it was taken from. -/
def render (e : Excerpt) (limit total : Nat) : String :=
  let budget := limit - (size e.versions + size e.verdicts + (footer total).utf8ByteSize)
  let violation :=
    if e.violationText.utf8ByteSize ≤ budget then e.violationText else ""
  let notes := fitting (budget - violation.utf8ByteSize) e.notes
  paragraph e.versions ++ violation ++
    (if notes.isEmpty then "" else "\n" ++ paragraph notes) ++
    paragraph e.verdicts ++ footer total

end Excerpt

/-- Output that is longer than the limit is replaced by an excerpt of it. -/
def truncate (output : String) (limit : Nat) : String :=
  if output.utf8ByteSize ≤ limit then output
  else
    let lines := (Text.lines output.toList).map String.ofList
    (Excerpt.ofLines lines).render limit output.utf8ByteSize

end PyVerify
