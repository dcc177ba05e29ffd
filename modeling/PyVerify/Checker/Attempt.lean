import PyVerify.Process.Run
import PyVerify.Text.Search

/-!
# Attempts

What one run of the model checker left, and what it says. A complaint about an option comes before
everything else, and a violation before a success; a success counts only with a clean exit.
-/

namespace PyVerify

structure Attempt where
  exitCode : Option Int
  output : String
  /-- The checker was stopped at its time limit. -/
  timedOut : Bool
  duration : Duration
deriving Repr

inductive Classification where
  | success
  | violationFound
  | unwindingIncomplete
  | timedOut
  | optionError
  /-- Nothing that could be recognised. -/
  | inconclusive
deriving DecidableEq, Repr

namespace Classification

def name : Classification → String
  | success => "success"
  | violationFound => "violation-found"
  | unwindingIncomplete => "unwinding-incomplete"
  | timedOut => "timed-out"
  | optionError => "option-error"
  | inconclusive => "inconclusive"

def isVerdict : Classification → Bool
  | success | violationFound => true
  | _ => false

end Classification

def successMarker : String := "VERIFICATION SUCCESSFUL"
def failureMarker : String := "VERIFICATION FAILED"
def unwindingMarker : String := "unwinding assertion"
def timeoutMarker : String := "Timed out"

/-- The text contains the marker. -/
def marks (marker text : String) : Bool :=
  Text.contains marker.toList text.toList

/-- What stands before the name in a complaint about an option. -/
def complaint : String := "unrecognised option '"

/-- A name with a closing quote at the start of a text. -/
def quotedName? (text : List Char) : Option (List Char) :=
  match text.takeWhile (· ≠ '\''), text.dropWhile (· ≠ '\'') with
  | c :: cs, '\'' :: _ => some (c :: cs)
  | _, _ => none

/-- The name in the first complaint. -/
def complainedName? : List Char → Option (List Char)
  | [] => none
  | c :: cs =>
    let name :=
      if complaint.toList.isPrefixOf (c :: cs) then
        quotedName? ((c :: cs).drop complaint.length)
      else none
    match name with
    | some n => some n
    | none => complainedName? cs

/-- A name as an option, with two hyphens before it. -/
def optionOfName (name : List Char) : String :=
  match name with
  | '-' :: '-' :: _ => String.ofList name
  | _ => "--" ++ String.ofList (name.dropWhile (· = '-'))

/-- The option that the checker complains about. -/
def unrecognisedOption? (output : String) : Option String :=
  (complainedName? output.toList).map optionOfName

def Attempt.classify (a : Attempt) : Classification :=
  if (unrecognisedOption? a.output).isSome then .optionError
  else if marks unwindingMarker a.output then .unwindingIncomplete
  else if marks failureMarker a.output then .violationFound
  else if marks successMarker a.output && a.exitCode == some 0 then .success
  else if a.timedOut || marks timeoutMarker a.output || a.exitCode == some 124 then .timedOut
  else .inconclusive

example : unrecognisedOption? "x: unrecognised option '' unrecognised option '-a'" = some "--a" := by
  decide +kernel

end PyVerify
