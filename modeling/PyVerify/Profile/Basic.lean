import PyVerify.Profile.Check
import PyVerify.Profile.Distinct
import PyVerify.Profile.Feature
import PyVerify.Text.Search

/-!
# Profiles

The profile of a program sums up its features and recommends checks. `Profile.ofModule` is the whole
analysis.
-/

namespace PyVerify

structure Profile where
  /-- The names of the functions in source order, each once. -/
  functions : List String
  /-- The names of the classes in source order, each once. -/
  classes : List String
  /-- The imported modules in source order. -/
  imports : List String
  hasLoops : Bool
  hasConditionals : Bool
  hasExceptions : Bool
  hasTypeHints : Bool
  hasDivision : Bool
  hasArrayAccess : Bool
  hasThreading : Bool
  hasArithmetic : Bool
  hasMultiplication : Bool
  hasPointerOps : Bool
  /-- The number of loops. -/
  loopCount : Nat
  /-- How deep loops are nested. -/
  loopNesting : Nat
  recommended : List Check
deriving DecidableEq, Repr

namespace BinaryOp

def isArithmetic : BinaryOp → Bool
  | add | sub | mul => true
  | _ => false

def isDivision : BinaryOp → Bool
  | div | floorDiv | mod => true
  | _ => false

end BinaryOp

namespace Feature

def functionName? : Feature → Option String
  | function name => some name
  | _ => none

def className? : Feature → Option String
  | «class» name => some name
  | _ => none

def module? : Feature → Option String
  | importing module => some module
  | _ => none

def loopDepth? : Feature → Option Nat
  | loop depth => some depth
  | _ => none

def operator? : Feature → Option BinaryOp
  | operator op => some op
  | _ => none

end Feature

namespace Profile

/-- The checks that the features of a profile call for, without looking at its recommendations. -/
def derivedChecks (p : Profile) : List Check :=
  (if p.hasArithmetic || p.hasMultiplication then [.overflow] else []) ++
  (if p.hasArrayAccess then [.bounds] else []) ++
  (if p.hasDivision then [.divByZero] else []) ++
  (if p.hasPointerOps then [.pointer] else [])

def ofFeatures (features : List Feature) : Profile :=
  let operators := features.filterMap Feature.operator?
  let imports := features.filterMap Feature.module?
  let loops := features.filterMap Feature.loopDepth?
  let p : Profile := {
    functions := distinct (features.filterMap Feature.functionName?)
    classes := distinct (features.filterMap Feature.className?)
    imports
    hasLoops := !loops.isEmpty
    hasConditionals := features.contains .conditional
    hasExceptions := features.contains .exception
    hasTypeHints := features.contains .typeHint
    hasDivision := operators.any BinaryOp.isDivision
    hasArrayAccess := features.contains .subscript
    hasThreading := imports.any fun m => Text.contains "threading".toList m.toList
    hasArithmetic := operators.any BinaryOp.isArithmetic
    hasMultiplication := operators.contains .mul
    hasPointerOps := features.contains .attribute
    loopCount := loops.length
    loopNesting := loops.foldl max 0
    recommended := [] }
  { p with recommended := p.derivedChecks }

def ofModule (m : Module) : Profile :=
  ofFeatures m.features

def recommends (p : Profile) (check : Check) : Bool :=
  p.recommended.contains check

def imports? (p : Profile) (name : String) : Bool :=
  p.imports.contains name

end Profile
end PyVerify
