import PyVerify.Code.Declaration
import PyVerify.Profile.Distinct

/-!
# Translating programs

Statements become C statements or comments in their place. Functions become C functions, and the
other statements of a module become the body of `main`. `Program.ofModule?` is the whole
translation.
-/

namespace PyVerify.Code

/-- The names declared in the function that is being written. -/
abbrev Scope := List String

/-- Code, what it calls for, and the scope behind it. -/
structure Emitted (α : Type) where
  value : α
  notes : Notes
  scope : Scope

def Emit (α : Type) := Scope → Emitted α

namespace Emit

variable {α β : Type}

instance : Monad Emit where
  pure a := fun scope => ⟨a, .none, scope⟩
  bind x f := fun scope =>
    let a := x scope
    let b := f a.value a.scope
    ⟨b.value, a.notes ++ b.notes, b.scope⟩

/-- Tries to translate an expression; what fails calls for nothing. -/
def attempt (x : Lowering α) : Emit (Except Unsupported α) := fun scope =>
  match x with
  | Except.ok (a, notes) => ⟨.ok a, notes, scope⟩
  | Except.error cause => ⟨.error cause, .none, scope⟩

/-- Adds a name to the scope; true if it was not there. -/
def declare (name : String) : Emit Bool := fun scope =>
  if scope.contains name then ⟨false, .none, scope⟩ else ⟨true, .none, name :: scope⟩

end Emit

open Emit

section Statements

variable (v : Verifier)

def condition (test : PyVerify.Expr) : Emit Condition := do
  match ← attempt (lowerBare v test) with
  | .ok t => return .term t
  | .error cause => return .unsupported cause

/-- What a target other than a name is written as. -/
def lowerTarget : PyVerify.Expr → Lowering (Option Term)
  | .name .. => pure none
  | e => some <$> lower v e

/-- An assignment to a target; a name that is new is declared with it. -/
def assignTo (target : PyVerify.Expr) (lowered : Option Term) (type : CType) (value : Term) :
    Emit (List Stmt) := do
  match lowered, target with
  | some t, _ => return [.assign t value]
  | none, .name _ id =>
    if ← declare id then return [.declare type (identifier id) (some value)]
    else return [.assign (.ident (identifier id)) value]
  | none, _ => return []

def assignAll (type : CType) (value : Term) : List (PyVerify.Expr × Option Term) → Emit (List Stmt)
  | [] => pure []
  | (target, lowered) :: rest => do
    let first ← assignTo target lowered type value
    return first ++ (← assignAll type value rest)

def isUnpacking : PyVerify.Expr → Bool
  | .tuple .. | .list .. => true
  | _ => false

def emitAssign (targets : List PyVerify.Expr) (value : PyVerify.Expr) : Emit (List Stmt) := do
  if targets.any isUnpacking then return [.placeholder .unpacking]
  else
    let lowered ← attempt do
      let t ← lowerBare v value
      return (t, ← targets.mapM (lowerTarget v))
    match lowered with
    | .ok (t, places) => assignAll (v.valueType value) t (targets.zip places)
    | .error cause => return [.placeholder (.assignment cause)]

def emitAnnAssign (target annotation : PyVerify.Expr) (value : Option PyVerify.Expr) :
    Emit (List Stmt) := do
  let type := v.annotationType (some annotation)
  match value with
  | some e =>
    let lowered ← attempt do
      let t ← lowerBare v e
      return (t, ← lowerTarget v target)
    match lowered with
    | .ok (t, place) => assignTo target place type t
    | .error cause => return [.placeholder (.assignment cause)]
  | none =>
    match target with
    | .name _ id =>
      if ← declare id then return [.declare type (identifier id) none] else return []
    | _ => return []

def emitAugAssign (target : PyVerify.Expr) (op : BinaryOp) (value : PyVerify.Expr) :
    Emit (List Stmt) := do
  match infixOp? op with
  | none => return [.placeholder (.augmented op.symbol)]
  | some sign =>
    let lowered ← attempt do
      Lowering.note ⟨checksOf op, []⟩
      let t ← lower v target
      return (t, ← lower v value)
    match lowered with
    | .ok (t, x) => return [.augment t sign x]
    | .error cause => return [.placeholder (.augmentedAssignment cause)]

def emitReturn (value : Option PyVerify.Expr) : Emit (List Stmt) := do
  match value with
  | none => return [.return (.int 0)]
  | some e =>
    match ← attempt (lowerOpen v e) with
    | .ok t => return [.return t]
    | .error _ => return [.returnUnsupported]

/-- An expression alone: texts and calls of `print` are left out. -/
def emitExpr (e : PyVerify.Expr) : Emit (List Stmt) := do
  match e with
  | .constant _ (.str _) => return []
  | .call _ (.name _ "print") _ _ => return []
  | _ =>
    match ← attempt (lower v e) with
    | .ok t => return [.term t]
    | .error cause => return [.placeholder (.expression cause)]

def assertTerm (test : Term) (message : Option PyVerify.Expr) : Term :=
  if v.imported then
    let text := match message with
      | some (.constant _ (.str body)) => body
      | _ => "assertion"
    .call "__ESBMC_assert" [test, .str text]
  else .call "assert" [test]

def emitAssert (test : PyVerify.Expr) (message : Option PyVerify.Expr) : Emit (List Stmt) := do
  match ← attempt (lowerBare v test) with
  | .ok t => return [.term (assertTerm v t message)]
  | .error cause => return [.placeholder (.assertion cause)]

def isNegated : PyVerify.Expr → Bool
  | .unary _ .neg _ => true
  | _ => false

/-- The header of a loop over a range with these bounds. -/
def rangeHeader? (counter : String) (args : List PyVerify.Expr) : List Term → Option RangeHeader
  | [stop] => some ⟨counter, .int 0, stop, none, false⟩
  | [start, stop] => some ⟨counter, start, stop, none, false⟩
  | [start, stop, step] => some ⟨counter, start, stop, some step, (args[2]?).any isNegated⟩
  | _ => none

/-- A header, or what stands in its place, with the declaration of its counter before it. -/
def emitRange (target iter : PyVerify.Expr) :
    Emit (Except Placeholder (List Stmt × RangeHeader)) := do
  match target, rangeArgs? iter with
  | .name _ id, some args =>
    match ← attempt (args.mapM (lower v)) with
    | .error cause => return .error (.rangeBound cause)
    | .ok bounds =>
      match rangeHeader? (identifier id) args bounds with
      | none => return .error .loopIterable
      | some header =>
        if ← declare id then return .ok ([.declare v.intType (identifier id) none], header)
        else return .ok ([], header)
  | .name .., none => return .error .loopIterable
  | _, _ => return .error .loopTarget

def loopElse (orelse : List PyVerify.Stmt) : List Stmt :=
  if orelse.isEmpty then [] else [.placeholder .loopElse]

mutual

def emitStmt : PyVerify.Stmt → Emit (List Stmt)
  | .return _ value => emitReturn v value
  | .if _ test body orelse => do
    let cond ← condition v test
    let first ← emitBlock body
    let (more, final) ← emitOrelse orelse
    return [.if ((cond, first) :: more) final]
  | .while _ test body orelse => do
    let cond ← condition v test
    let code ← emitBlock body
    return .while cond code :: loopElse orelse
  | .for _ _ target iter body orelse => do
    match ← emitRange v target iter with
    | .error what => return [.placeholder what]
    | .ok (declaration, header) =>
      let code ← emitBlock body
      return declaration ++ .forRange header code :: loopElse orelse
  | .assign _ targets value => emitAssign v targets value
  | .annAssign _ target annotation value => emitAnnAssign v target annotation value
  | .augAssign _ target op value => emitAugAssign v target op value
  | .expr _ e => emitExpr v e
  | .assert _ test message => emitAssert v test message
  | .break _ => pure [.break]
  | .continue _ => pure [.continue]
  | .pass _ | .importModules .. | .importFrom .. | .global .. | .nonlocal .. => pure []
  | s => pure [.placeholder (.kind s.describe)]

def emitBlock : List PyVerify.Stmt → Emit (List Stmt)
  | [] => pure []
  | s :: ss => do
    let first ← emitStmt s
    return first ++ (← emitBlock ss)

/-- An `else` block; a conditional alone in it becomes one more branch. -/
def emitOrelse : List PyVerify.Stmt → Emit (List (Condition × List Stmt) × Option (List Stmt))
  | [] => pure ([], none)
  | [.if _ test body orelse] => do
    let cond ← condition v test
    let code ← emitBlock body
    let (more, final) ← emitOrelse orelse
    return ((cond, code) :: more, final)
  | s :: ss => do
    let first ← emitStmt s
    return ([], some (first ++ (← emitBlock ss)))

end

/-- Declarations of hoisted names. -/
def declarations (names : List Binding) : List Stmt :=
  names.map fun b => .declare b.type (identifier b.name) none

/-- A function: its parameters and the hoisted names are in scope from the start. -/
def emitFunction (name : String) (params : List (Param PyVerify.Expr))
    (returns : Option PyVerify.Expr) (body : List PyVerify.Stmt) : Function × Notes :=
  let positional := Param.positionals params
  let names := positional.map (·.name.text)
  let locals := hoisted names (blockBindings v false body)
  let code := emitBlock v body (locals.map Binding.name ++ names)
  (⟨v.annotationType returns, identifier name,
    positional.map fun p => (v.annotationType p.annotation, identifier p.name.text),
    declarations locals ++ code.value⟩, code.notes)

end Statements

/-! ## Modules -/

/-- The test that a module is run as a program, with its sides in either order. -/
def isMainGuard : PyVerify.Expr → Bool
  | .compare _ (.name _ "__name__") [(.eq, .constant _ (.str "__main__"))]
  | .compare _ (.constant _ (.str "__main__")) [(.eq, .name _ "__name__")] => true
  | _ => false

/-- What a top-level statement contributes to a program. -/
inductive Part where
  | definition (d : Definition)
  | main (code : List Stmt)

/-- The statements that a top-level statement adds to `main`. -/
def mainBlock : PyVerify.Stmt → List PyVerify.Stmt
  | .functionDef .. | .classDef .. => []
  | s@(.if _ test body _) => if isMainGuard test then body else [s]
  | s => [s]

def emitTopLevel (v : Verifier) : PyVerify.Stmt → Emit Part
  | .functionDef _ name false _ params returns body => fun scope =>
    let (f, notes) := emitFunction v name.text params returns body
    ⟨.definition (.function f), notes, scope⟩
  | s@(.functionDef ..) | s@(.classDef ..) =>
    pure (.definition (.placeholder (.kind s.describe)))
  | s@(.if _ test body orelse) => do
    if isMainGuard test then
      let code ← emitBlock v body
      return .main (if orelse.isEmpty then code else code ++ [.placeholder .guardElse])
    else return .main (← emitStmt v s)
  | s => do return .main (← emitStmt v s)

def emitTopLevels (v : Verifier) : List PyVerify.Stmt → Emit (List Part)
  | [] => pure []
  | s :: ss => do
    let first ← emitTopLevel v s
    return first :: (← emitTopLevels v ss)

namespace Part

def definition? : Part → Option Definition
  | definition d => some d
  | main _ => none

def mainCode : Part → List Stmt
  | definition _ => []
  | main code => code

end Part

/-- The names of the functions that are translated, in source order. -/
def functionNames (m : Module) : List String :=
  m.body.filterMap fun
    | .functionDef _ name false .. => some name.text
    | _ => none

/-- A translated program. -/
structure Translation where
  program : Program
  /-- The checks that the code gives reason for, each once. -/
  checks : List Check
  /-- The names of the translated functions. -/
  functions : List String
  /-- The source is written for the verifier. -/
  usesVerifier : Bool
deriving Repr

/-- The translation of a module; none if nothing in it is translated. -/
def Translation.ofModule? (m : Module) : Option Translation :=
  let v := Verifier.ofModule m
  let locals := hoisted [] (m.body.flatMap fun s => blockBindings v false (mainBlock s))
  let parts := emitTopLevels v m.body (locals.map Binding.name)
  let main := parts.value.flatMap Part.mainCode
  let functions := functionNames m
  if functions.isEmpty && main.all Stmt.isPlaceholder then none
  else
    let primitives := distinct parts.notes.primitives
    some {
      program := {
        standardAssert := !v.imported
        primitives := primitives.map fun p => (primitiveType p, p)
        definitions := parts.value.filterMap Part.definition?
        main := declarations locals ++ main }
      checks := distinct parts.notes.checks
      functions
      usesVerifier := v.imported }

end PyVerify.Code
