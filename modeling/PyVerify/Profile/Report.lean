import PyVerify.Json.Basic
import PyVerify.Profile.Basic

/-!
# Reports on profiles

Which tools are worth running on a program, and a profile as text and as JSON.
-/

namespace PyVerify

inductive Tool where
  | typeCheck
  | deadlockDetector
  | modelCheck
  | securityScan
  | lint
  | styleCheck
deriving DecidableEq, Repr

def Tool.name : Tool → String
  | typeCheck => "type-check"
  | deadlockDetector => "deadlock-detector"
  | modelCheck => "model-check"
  | securityScan => "security-scan"
  | lint => "lint"
  | styleCheck => "style-check"

/-- A tool worth running, and why; the model checker comes with the checks to enable. -/
structure Recommendation where
  tool : Tool
  reason : String
  checks : List Check
deriving DecidableEq, Repr

namespace Profile

/-- The tools worth running, the most valuable first. -/
def tools (p : Profile) : List Recommendation :=
  (if p.hasTypeHints then [⟨.typeCheck, "type annotations present", []⟩] else []) ++
  (if p.hasThreading then
    [⟨.deadlockDetector, "threading in use; translation to C loses threading semantics", []⟩]
  else if p.recommended.isEmpty then []
  else [⟨.modelCheck, "translate to C and model check", p.recommended⟩]) ++
  (if p.imports? "os" || p.imports? "subprocess" then
    [⟨.securityScan, "process or filesystem access", []⟩]
  else []) ++
  [⟨.lint, "code quality", []⟩, ⟨.styleCheck, "style", []⟩]

private def yesNo (flag : Bool) : String :=
  if flag then "yes" else "no"

private def listOrNone (items : List String) : String :=
  if items.isEmpty then "none" else String.intercalate ", " items

private def toolLine (r : Recommendation) : String :=
  if r.checks.isEmpty then s!"    - {r.tool.name} ({r.reason})"
  else
    let checks := String.intercalate ", " (r.checks.map Check.name)
    s!"    - {r.tool.name} ({r.reason}; checks: {checks})"

def render (p : Profile) : String :=
  let loops :=
    if p.hasLoops then s!"yes (depth counter {p.loopCount}, nesting {p.loopNesting})" else "no"
  let lines := [
    "Structural analysis",
    "  functions: " ++ listOrNone p.functions,
    "  classes:   " ++ listOrNone p.classes,
    "  imports:   " ++ listOrNone p.imports,
    "",
    "  type hints:        " ++ yesNo p.hasTypeHints,
    "  loops:             " ++ loops,
    "  conditionals:      " ++ yesNo p.hasConditionals,
    "  exceptions:        " ++ yesNo p.hasExceptions,
    "  arithmetic:        " ++ yesNo p.hasArithmetic,
    "  multiplication:    " ++ yesNo p.hasMultiplication,
    "  division:          " ++ yesNo p.hasDivision,
    "  subscript access:  " ++ yesNo p.hasArrayAccess,
    "  attribute access:  " ++ yesNo p.hasPointerOps,
    "  threading:         " ++ yesNo p.hasThreading,
    "",
    "  recommended checks: " ++ listOrNone (p.recommended.map Check.name),
    "  recommended tools:"] ++ p.tools.map toolLine
  String.join (lines.map (· ++ "\n"))

def toJson (p : Profile) : Json :=
  .object [
    ("functions", .strings p.functions),
    ("classes", .strings p.classes),
    ("imports", .strings p.imports),
    ("has_loops", .bool p.hasLoops),
    ("has_conditionals", .bool p.hasConditionals),
    ("has_exceptions", .bool p.hasExceptions),
    ("has_type_hints", .bool p.hasTypeHints),
    ("has_division", .bool p.hasDivision),
    ("has_array_access", .bool p.hasArrayAccess),
    ("has_threading", .bool p.hasThreading),
    ("has_arithmetic", .bool p.hasArithmetic),
    ("has_multiplication", .bool p.hasMultiplication),
    ("has_pointer_ops", .bool p.hasPointerOps),
    ("max_loop_depth", .ofNat p.loopCount),
    ("max_loop_nesting", .ofNat p.loopNesting),
    ("recommended_checks", .strings (p.recommended.map Check.name))]

end Profile
end PyVerify
