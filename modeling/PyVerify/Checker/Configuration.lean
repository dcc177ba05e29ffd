import PyVerify.Json.Basic
import PyVerify.Profile.Check

/-!
# Checker configurations

Which properties a model checker looks for, and within which bounds. Three of the properties are
always looked for; each of the other three has an option of its own on the command line.
-/

namespace PyVerify

/-- The properties that are asked for. -/
structure Flags where
  overflow : Bool
  bounds : Bool
  divByZero : Bool
  deadlock : Bool
  pointer : Bool
  memoryLeak : Bool
deriving DecidableEq, Repr

namespace Flags

def none : Flags := ⟨false, false, false, false, false, false⟩

def ofChecks (checks : List Check) : Flags :=
  { none with
    overflow := checks.contains .overflow
    bounds := checks.contains .bounds
    divByZero := checks.contains .divByZero
    pointer := checks.contains .pointer }

def union (a b : Flags) : Flags :=
  { overflow := a.overflow || b.overflow
    bounds := a.bounds || b.bounds
    divByZero := a.divByZero || b.divByZero
    deadlock := a.deadlock || b.deadlock
    pointer := a.pointer || b.pointer
    memoryLeak := a.memoryLeak || b.memoryLeak }

/-- Without the properties that have an option. -/
def withoutOptional (f : Flags) : Flags :=
  { f with overflow := false, deadlock := false, memoryLeak := false }

/-- The names of the properties that have an option. -/
def optional (f : Flags) : List String :=
  (if f.overflow then ["overflow"] else []) ++
  (if f.deadlock then ["deadlock"] else []) ++
  (if f.memoryLeak then ["memory-leak"] else [])

def toJson (f : Flags) : Json :=
  .object [
    ("overflow", .bool f.overflow),
    ("bounds", .bool f.bounds),
    ("div_by_zero", .bool f.divByZero),
    ("deadlock", .bool f.deadlock),
    ("pointer", .bool f.pointer),
    ("memory_leak", .bool f.memoryLeak)]

end Flags

structure Configuration where
  flags : Flags
  /-- How often loops are unwound. -/
  unwind : Nat
  /-- The checker's own time limit in seconds. -/
  timeout : Nat
deriving DecidableEq, Repr

namespace Configuration

/-- Looking for overflow or memory leaks takes more time. -/
def ofFlags (flags : Flags) : Configuration :=
  { flags
    unwind := 10
    timeout := if flags.overflow || flags.memoryLeak then 60 else 30 }

def withUnwind (c : Configuration) (n : Nat) : Configuration :=
  { c with unwind := max n 1 }

def withTimeout (c : Configuration) (seconds : Nat) : Configuration :=
  { c with timeout := max seconds 1 }

/-- With loops unwound more often, never less often. -/
def escalated (c : Configuration) : Configuration :=
  { c with unwind := max c.unwind 20 }

/-- With less to look for, never within looser bounds on loops. -/
def degraded (c : Configuration) : Configuration :=
  { flags := c.flags.withoutOptional, unwind := min c.unwind 5, timeout := 30 }

def option (property : String) : String :=
  s!"--{property}-check"

def arguments (c : Configuration) (file : String) : List String :=
  [file, "--unwind", toString c.unwind, "--timeout", toString c.timeout] ++
    c.flags.optional.map option

/-- The checks in effect. -/
def enabled (c : Configuration) : List String :=
  ["bounds-check", "div-by-zero-check", "pointer-check"] ++ c.flags.optional

def render (c : Configuration) : String :=
  let checks := ", ".intercalate c.enabled
  s!"unwind={c.unwind} timeout={c.timeout}s checks=[{checks}]"

def toJson (c : Configuration) : Json :=
  .object [
    ("checks", c.flags.toJson),
    ("unwind", .ofNat c.unwind),
    ("timeout_secs", .ofNat c.timeout)]

end Configuration
end PyVerify
