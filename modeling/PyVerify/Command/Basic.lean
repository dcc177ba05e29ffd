import PyVerify.Checker.Configuration
import PyVerify.Command.Number
import PyVerify.Command.Word

/-!
# Commands

What a command line asks for. `CommandLine.ofWords` takes it from the words behind the program's
name.
-/

namespace PyVerify

/-- A source or C file to check, and how. -/
structure VerifyCommand where
  file : String
  flags : Flags
  /-- Also look for what the source gives reason for. -/
  recommended : Bool
  unwind : Option Nat
  timeout : Option Nat
  binary : Option String
  directory : Option String
  json : Bool
deriving Repr

/-- A program to run, or a script. -/
structure MonitorCommand where
  program : String
  arguments : List String
  /-- Seconds. -/
  timeout : Option Binary64
  interpreter : Option String
  json : Bool
deriving Repr

inductive Command where
  | analyze (file : String) (json : Bool)
  | translate (file : String) (directory : Option String) (json : Bool)
  | verify (command : VerifyCommand)
  | monitor (command : MonitorCommand)
deriving Repr

structure CommandLine where
  settingsFile : Option String
  command : Command
deriving Repr

namespace Command

/-- The options that every command takes. -/
def commonRules : List OptionRule :=
  [.shortFlag "help" 'h', .shortFlag "verbose" 'v', .valued "config"]

def mainGrammar : Grammar := ⟨.shortFlag "version" 'V' :: commonRules, .command⟩

def analyzeGrammar : Grammar := ⟨.flag "json" :: commonRules, .one⟩

def translateGrammar : Grammar := ⟨.valued "out-dir" :: .flag "json" :: commonRules, .one⟩

def verifyFlags : List String :=
  ["overflow", "bounds", "div-by-zero", "deadlock", "pointer", "memory-leak", "recommended", "json"]

def verifyGrammar : Grammar :=
  ⟨["unwind", "timeout", "esbmc-path", "out-dir"].map .valued ++ verifyFlags.map .flag ++ commonRules,
    .one⟩

def monitorGrammar : Grammar :=
  ⟨.valued "timeout" :: .valued "python" :: .flag "json" :: commonRules, .program⟩

/-- The value of an option, which has to be readable if it is given. -/
def valueOf? {α : Type} (g : Given) (name : String) (ofText? : String → Option α) :
    Except Refusal (Option α) :=
  match g.value? name with
  | none => .ok none
  | some text =>
    match ofText? text with
    | some a => .ok (some a)
    | none => .error (.usage (.badValue name text))

/-- Paths are not empty. -/
def path? (text : String) : Option String :=
  if text.isEmpty then none else some text

def file (g : Given) : Except Refusal String :=
  match g.operands.head?.bind path? with
  | some path => .ok path
  | none => .error (.usage .missingOperand)

def ofAnalyze (g : Given) : Except Refusal Command := do
  return .analyze (← file g) (g.has "json")

def ofTranslate (g : Given) : Except Refusal Command := do
  return .translate (← file g) (← valueOf? g "out-dir" path?) (g.has "json")

def ofVerify (g : Given) : Except Refusal Command := do
  return .verify {
    file := ← file g
    flags := {
      overflow := g.has "overflow"
      bounds := g.has "bounds"
      divByZero := g.has "div-by-zero"
      deadlock := g.has "deadlock"
      pointer := g.has "pointer"
      memoryLeak := g.has "memory-leak" }
    recommended := g.has "recommended"
    unwind := ← valueOf? g "unwind" fun text => integer? UInt32.size text.toList
    timeout := ← valueOf? g "timeout" fun text => natural? UInt64.size text.toList
    binary := g.value? "esbmc-path"
    directory := ← valueOf? g "out-dir" path?
    json := g.has "json" }

def ofMonitor (g : Given) : Except Refusal Command := do
  return .monitor {
    program := g.operands.headD ""
    arguments := g.operands.tail
    timeout := ← valueOf? g "timeout" fun text => binary64? text.toList
    interpreter := g.value? "python"
    json := g.has "json" }

/-- The commands by name: which words one takes, and what they ask for. -/
def named? : String → Option (Grammar × (Given → Except Refusal Command))
  | "analyze" => some (analyzeGrammar, ofAnalyze)
  | "translate" => some (translateGrammar, ofTranslate)
  | "verify" => some (verifyGrammar, ofVerify)
  | "monitor" => some (monitorGrammar, ofMonitor)
  | _ => none

/-- A request for help may name a command. -/
def help : List String → Except Refusal CommandLine
  | [] => .error .help
  | name :: _ =>
    if name = "help" ∨ (named? name).isSome then .error .help
    else .error (.usage (.unknownCommand name))

end Command

open Command

/-- Options that every command takes may stand before its name or behind it; the latter count. -/
def CommandLine.ofWords (words : List String) : Except Refusal CommandLine := do
  let outer ← mainGrammar.read words
  let before ← valueOf? outer "config" path?
  let name := outer.operands.headD ""
  let rest := outer.operands.tail
  if name = "help" then Command.help rest
  else match named? name with
    | none => .error (.usage (.unknownCommand name))
    | some (grammar, ofGiven) =>
      let g ← grammar.read rest
      let behind ← valueOf? g "config" path?
      return { settingsFile := behind <|> before, command := ← ofGiven g }

end PyVerify
