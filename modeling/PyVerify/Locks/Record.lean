import PyVerify.Json.Reader
import PyVerify.Locks.Hazard
import PyVerify.Text.Line

/-!
# Hazard records

A program under instrumentation writes its hazards as lines of their own, each a marker and a JSON
text. `splitRecords` takes them out of what the program wrote.
-/

namespace PyVerify.Locks

open Text (Reader)

namespace Hazard

open Json.Reader

/-- A kind is a name, alone or as the key of nothing. -/
def readKind : Reader HazardKind := do
  let name ←
    if (← peek) = '\x7b' then do
      sign '\x7b'
      let name ← Json.Reader.string
      sign ':'
      word "null"
      sign '\x7d'
      pure name
    else Json.Reader.string
  match HazardKind.ofName? name with
  | some kind => return kind
  | none => failure

/-- The members that have been read. -/
structure Draft where
  kind : Option HazardKind
  threads : Option (List String)
  locks : Option (List String)
  message : Option String

/-- A value that is not there yet. -/
def once {α : Type} (present : Option α) (r : Reader α) : Reader (Option α) := do
  if present.isSome then failure
  return some (← r)

/-- Reads one member; unknown ones do not matter, and none may come twice. -/
def readMember (d : Draft) : Reader Draft := do
  let key ← Json.Reader.string
  sign ':'
  match key with
  | "kind" => return { d with kind := ← once d.kind readKind }
  | "threads" => return { d with threads := ← once d.threads (list Json.Reader.string) }
  | "locks" => return { d with locks := ← once d.locks (list Json.Reader.string) }
  | "message" => return { d with message := ← once d.message Json.Reader.string }
  | _ =>
    skip
    return d

def readMembers : Reader Hazard := do
  match ← enclosed '\x7b' '\x7d' readMember ⟨none, none, none, none⟩ with
  | ⟨some kind, some threads, some locks, some message⟩ => return ⟨kind, threads, locks, message⟩
  | _ => failure

/-- A hazard as the array of its four members. -/
def readArray : Reader Hazard := do
  sign '['
  let kind ← readKind
  sign ','
  let threads ← list Json.Reader.string
  sign ','
  let locks ← list Json.Reader.string
  sign ','
  let message ← Json.Reader.string
  sign ']'
  return ⟨kind, threads, locks, message⟩

def ofJson? (text : List Char) : Option Hazard :=
  read? (do if (← peek) = '[' then readArray else readMembers) text

end Hazard

def hazardMarker : String := "@@VIGIL_HAZARD@@ "

/-- What stands behind the marker, if a line starts with it. -/
def record? (line : List Char) : Option (List Char) :=
  if hazardMarker.toList.isPrefixOf line then some (line.drop hazardMarker.length) else none

/-- The values of the records among lines, and the other lines. Unreadable records are dropped. -/
def splitRecords {α : Type} (read : List Char → Option α) (lines : List (List Char)) :
    List α × List (List Char) :=
  (lines.filterMap fun line => (record? line).bind read,
    lines.filter fun line => (record? line).isNone)

/-- The hazards in what a program wrote, and the rest of it. -/
def splitHazards (text : String) : List Hazard × String :=
  let (hazards, rest) := splitRecords Hazard.ofJson? (Text.lines text.toList)
  (hazards, String.ofList (Text.unlines rest))

end PyVerify.Locks
