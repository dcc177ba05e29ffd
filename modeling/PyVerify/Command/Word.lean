/-!
# Words of a command line

A word is an option, a group of short options, the mark behind which no options stand, or anything
else. `Grammar.read` sorts words into options and operands.
-/

namespace PyVerify.Command

inductive Word where
  /-- Two dashes alone. -/
  | mark
  /-- Two dashes and a name, and a value behind an equals sign. -/
  | long (name : String) (value : Option String)
  /-- One dash and letters. -/
  | short (letters : List Char)
  | plain
deriving DecidableEq, Repr

/-- A single dash is no option. -/
def Word.ofText (text : String) : Word :=
  match text.toList with
  | ['-', '-'] => mark
  | '-' :: '-' :: cs =>
    let name := cs.takeWhile (· ≠ '=')
    let value := match cs.drop name.length with
      | [] => none
      | _ :: value => some (String.ofList value)
    long (String.ofList name) value
  | '-' :: c :: cs => short (c :: cs)
  | _ => plain

/-- An option that a command takes. -/
structure OptionRule where
  name : String
  letter : Option Char
  takesValue : Bool
deriving Repr

namespace OptionRule

def flag (name : String) : OptionRule := ⟨name, none, false⟩

def shortFlag (name : String) (letter : Char) : OptionRule := ⟨name, some letter, false⟩

def valued (name : String) : OptionRule := ⟨name, none, true⟩

end OptionRule

/-- What the words are that are no options. -/
inductive Operands where
  /-- Exactly one word. -/
  | one
  /-- A command, and all that follows it. -/
  | command
  /-- A program, and its arguments, which may look like options that are not taken. -/
  | program
deriving DecidableEq, Repr

structure Grammar where
  rules : List OptionRule
  operands : Operands
deriving Repr

/-- What is wrong with a command line. -/
inductive UsageError where
  | unknownOption (word : String)
  | repeatedOption (name : String)
  | missingValue (name : String)
  | unneededValue (name : String)
  | badValue (name value : String)
  | missingOperand
  | unexpectedWord (word : String)
  | unknownCommand (word : String)
deriving DecidableEq, Repr

def UsageError.message : UsageError → String
  | unknownOption word => s!"unexpected option: {word}"
  | repeatedOption name => s!"given more than once: --{name}"
  | missingValue name => s!"no value given: --{name}"
  | unneededValue name => s!"takes no value: --{name}"
  | badValue name value => s!"invalid value for --{name}: {value}"
  | missingOperand => "too few words"
  | unexpectedWord word => s!"unexpected word: {word}"
  | unknownCommand word => s!"unknown command: {word}"

/-- Why a command line names no command to run. -/
inductive Refusal where
  | help
  | version
  | usage (error : UsageError)
deriving DecidableEq, Repr

/-- What words give: options, those with a value by their value, and operands in order. -/
structure Given where
  options : List (String × Option String)
  operands : List String
deriving Repr

namespace Given

def empty : Given := ⟨[], []⟩

def has (g : Given) (name : String) : Bool :=
  (g.options.lookup name).isSome

def value? (g : Given) (name : String) : Option String :=
  (g.options.lookup name).join

/-- Adds an option; none may be given twice. -/
def withOption (g : Given) (name : String) (value : Option String) : Except Refusal Given :=
  if name = "help" then .error .help
  else if name = "version" then .error .version
  else if g.has name then .error (.usage (.repeatedOption name))
  else .ok { g with options := g.options ++ [(name, value)] }

def withOperands (g : Given) (words : List String) : Given :=
  { g with operands := g.operands ++ words }

/-- Adds flags that are given by their letters. -/
def withFlags (g : Given) (rules : List OptionRule) : Except Refusal Given :=
  rules.foldlM (fun g rule => g.withOption rule.name none) g

end Given

namespace Grammar

def named? (c : Grammar) (name : String) : Option OptionRule :=
  c.rules.find? (·.name == name)

def lettered? (c : Grammar) (letter : Char) : Option OptionRule :=
  c.rules.find? (·.letter == some letter)

/-- The word is an option that the command takes. -/
def takes (c : Grammar) : Word → Bool
  | .long name _ => (c.named? name).isSome
  | .short letters => letters.all fun l => (c.lettered? l).isSome
  | _ => false

/-- Arguments of a program may follow, so an option that is not taken is one of them. -/
def isOpen (c : Grammar) (g : Given) : Bool :=
  c.operands = .program && !g.operands.isEmpty

/-- The word may be the value of an option before it. -/
def isValue (c : Grammar) (g : Given) (text : String) : Bool :=
  match Word.ofText text with
  | .plain => true
  | .mark => false
  | word => c.isOpen g && !c.takes word

def readFrom (c : Grammar) (g : Given) : List String → Except Refusal Given
  | [] => .ok g
  | text :: rest =>
    let unknown : Except Refusal Given :=
      if c.isOpen g then .ok (g.withOperands (text :: rest))
      else .error (.usage (.unknownOption text))
    match Word.ofText text with
    | .mark =>
      if c.operands = .command then .error (.usage (.unexpectedWord text))
      else .ok (g.withOperands rest)
    | .plain =>
      if c.operands = .command || c.isOpen g then .ok (g.withOperands (text :: rest))
      else c.readFrom (g.withOperands [text]) rest
    | .short letters =>
      match letters.mapM c.lettered? with
      | some rules => do c.readFrom (← g.withFlags rules) rest
      | none => unknown
    | .long name value =>
      match c.named? name with
      | none => unknown
      | some rule =>
        if rule.takesValue then
          match value with
          | some value => do c.readFrom (← g.withOption name value) rest
          | none =>
            match rest with
            | [] => .error (.usage (.missingValue name))
            | value :: rest =>
              if c.isValue g value then do c.readFrom (← g.withOption name value) rest
              else .error (.usage (.missingValue name))
        else if value.isSome then .error (.usage (.unneededValue name))
        else do c.readFrom (← g.withOption name none) rest

/-- Sorts words into options and operands, of which there is at least one. -/
def read (c : Grammar) (words : List String) : Except Refusal Given := do
  let g ← c.readFrom .empty words
  match g.operands with
  | [] => .error (.usage .missingOperand)
  | _ :: more =>
    match c.operands, more with
    | .one, word :: _ => .error (.usage (.unexpectedWord word))
    | _, _ => .ok g

end Grammar
end PyVerify.Command
