import PyVerify.Toml.Reader

/-!
# Settings files

A settings file has a section for the checker, for the output and for the detector. Each value that
it may give has a name, a section and a kind; all else makes the file malformed.
-/

namespace PyVerify

/-- The values of a section by name. -/
abbrev Section := List (String × Toml.Value)

namespace Section

/-- A section is a table of known names, or an array of their values in order. -/
def ofValue? (names : List String) : Toml.Value → Option Section
  | .table _ members => if members.all fun (name, _) => names.contains name then some members else none
  | .array items => some (names.zip items)
  | .tables items => some (names.zip (items.map (.table .header)))
  | _ => none

/-- A value of a section, or what stands for it if it is not given. -/
def read? {α : Type} (s : Section) (name : String) (ofValue? : Toml.Value → Option α) (otherwise : α) :
    Option α :=
  match s.lookup name with
  | none => some otherwise
  | some value => ofValue? value

end Section

namespace Toml.Value

def string? : Value → Option String
  | string s => some s
  | _ => none

def natural? : Value → Option Nat
  | integer n => if 0 ≤ n then some n.toNat else none
  | _ => none

/-- A number, whole or not. -/
def number? : Value → Option Binary64
  | float x => some x
  | integer n => some (.signed (n < 0) (.ofNat n.natAbs))
  | _ => none

end Toml.Value

/-- All that a settings file says, with what stands for values that are not given. -/
structure SettingsFile where
  binary : String
  grace : Nat
  outputLimit : Nat
  directory : String
  timeout : Binary64
  interpreter : String
deriving DecidableEq, Repr

namespace SettingsFile

open Toml (Value)

def fileName : String := "vigil.toml"

def ofMembers? (members : Toml.Members) : Option SettingsFile := do
  let root ← Section.ofValue? ["checker", "output", "detector"] (.table .header members)
  let part (name : String) (names : List String) : Option Section :=
    root.read? name (Section.ofValue? names) []
  let checker ← part "checker" ["binary", "grace_secs", "max_output_len"]
  let output ← part "output" ["dir"]
  let detector ← part "detector" ["timeout_secs", "python"]
  return {
    binary := ← checker.read? "binary" Value.string? "esbmc"
    grace := ← checker.read? "grace_secs" Value.natural? 10
    outputLimit := ← checker.read? "max_output_len" Value.natural? 5000
    directory := ← output.read? "dir" Value.string? "."
    timeout := ← detector.read? "timeout_secs" Value.number? (.ofNat 5)
    interpreter := ← detector.read? "python" Value.string? "python3" }

def ofText? (text : String) : Option SettingsFile :=
  Toml.read? text.toList >>= ofMembers?

end SettingsFile
end PyVerify
