import PyVerify.Checker.Attempt
import PyVerify.Checker.Configuration

/-!
# Retry ladders

What follows an attempt. Loops that were not unwound often enough are unwound more often once; an
attempt that runs out of time is repeated once with less to look for; an option that the checker
does not know is left out, once and for good. Everything else ends the request.
-/

namespace PyVerify

/-- A command line for the checker. -/
structure Invocation where
  program : String
  arguments : List String
  configuration : Configuration
deriving DecidableEq, Repr

namespace Invocation

def commandLine (i : Invocation) : String :=
  " ".intercalate (i.program :: i.arguments)

def hasOption (i : Invocation) (option : String) : Bool :=
  i.arguments.contains option

end Invocation

inductive Stage where
  | initial
  | escalated
  | degraded
deriving DecidableEq, Repr

namespace Stage

def name : Stage → String
  | initial => "initial"
  | escalated => "escalated"
  | degraded => "degraded"

def title : Stage → String
  | initial => "Initial"
  | escalated => "Escalated"
  | degraded => "Degraded"

end Stage

/-- What follows an attempt. -/
inductive Transition where
  /-- The same again without an option. -/
  | repair (option : String)
  | escalate
  | degrade
  | finish (classification : Classification)
deriving DecidableEq, Repr

/-- How the request ends, if it ends here. -/
def Transition.ending? : Transition → Option Classification
  | finish classification => some classification
  | _ => none

/-- Advice on a request that ended without a verdict. -/
def Classification.guidance? : Classification → Option String
  | unwindingIncomplete => some <|
    "The loops need more than the maximum unwind bound to be fully explored. " ++
    "Add explicit loop bounds, constrain nondeterministic inputs with __ESBMC_assume(), " ++
    "or simplify the loop logic."
  | timedOut => some <|
    "The program is too complex to verify within the time limit, even with reduced checks. " ++
    "Simplify inputs, bound nondeterministic values (e.g. __ESBMC_assume(n < 1000)), " ++
    "and remove unnecessary code paths."
  | _ => none

structure Ladder where
  stage : Stage
  configuration : Configuration
  /-- The options that are left out. -/
  removed : List String
  repairs : Nat
  escalations : Nat
  degradations : Nat
deriving DecidableEq, Repr

namespace Ladder

/-- Each way to go on may be taken once. -/
def start (configuration : Configuration) : Ladder :=
  { stage := .initial, configuration, removed := [], repairs := 1, escalations := 1, degradations := 1 }

/-- Options that the next argument belongs to. -/
def valuedOptions : List String := ["--unwind", "--timeout"]

/-- Arguments without some options and the values that belong to them. -/
def without (removed : List String) : List String → List String
  | [] => []
  | arg :: rest =>
    if removed.contains arg then
      if valuedOptions.contains arg then
        match rest with
        | [] => []
        | _ :: rest => without removed rest
      else without removed rest
    else arg :: without removed rest

def invocation (l : Ladder) (program file : String) : Invocation :=
  { program
    arguments := without l.removed (l.configuration.arguments file)
    configuration := l.configuration }

/-- The option to leave out: one that is complained about and was given. -/
def rejected? (output : String) (last : Invocation) : Option String :=
  (unrecognisedOption? output).filter last.hasOption

/-- What follows an attempt, and the ladder behind it. -/
def advance (l : Ladder) (observed : Classification) (output : String) (last : Invocation) :
    Transition × Ladder :=
  match observed with
  | .optionError =>
    match rejected? output last with
    | some option =>
      if 0 < l.repairs then
        (.repair option, { l with repairs := l.repairs - 1, removed := l.removed ++ [option] })
      else (.finish observed, l)
    | none => (.finish observed, l)
  | .unwindingIncomplete =>
    if l.stage = .initial ∧ 0 < l.escalations then
      (.escalate, { l with
        escalations := l.escalations - 1
        stage := .escalated
        configuration := l.configuration.escalated })
    else (.finish observed, l)
  | .timedOut =>
    if l.stage ≠ .degraded ∧ 0 < l.degradations then
      (.degrade, { l with
        degradations := l.degradations - 1
        stage := .degraded
        configuration := l.configuration.degraded })
    else (.finish observed, l)
  | .success | .violationFound | .inconclusive => (.finish observed, l)

/-- How often the request can still go on. -/
def budget (l : Ladder) : Nat :=
  l.repairs + l.escalations + l.degradations

theorem budget_advance {l : Ladder} {observed : Classification} {output : String} {last : Invocation}
    (h : (l.advance observed output last).1.ending? = none) :
    (l.advance observed output last).2.budget < l.budget := by
  unfold advance at h ⊢
  split at h
  case h_1 =>
    split at h
    case h_1 =>
      split at h
      case isTrue hr =>
        rw [if_pos hr]
        simp only [budget]
        omega
      case isFalse => simp [Transition.ending?] at h
    case h_2 => simp [Transition.ending?] at h
  case h_2 =>
    split at h
    case isTrue hr =>
      rw [if_pos hr]
      simp only [budget]
      omega
    case isFalse => simp [Transition.ending?] at h
  case h_3 =>
    split at h
    case isTrue hr =>
      rw [if_pos hr]
      simp only [budget]
      omega
    case isFalse => simp [Transition.ending?] at h
  all_goals simp [Transition.ending?] at h

end Ladder
end PyVerify
