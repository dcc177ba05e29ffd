import PyVerify.Code.Name
import PyVerify.Code.Verifier
import PyVerify.Profile.Check

/-!
# Translating expressions

An expression either has a C term, with the checks it gives reason for and the primitives it calls,
or a cause why it has none. What has no term leaves nothing behind.
-/

namespace PyVerify.Code

/-- What a piece of translated code calls for, in order. -/
structure Notes where
  checks : List Check
  primitives : List String
deriving DecidableEq, Repr

namespace Notes

def none : Notes := ⟨[], []⟩

def append (a b : Notes) : Notes :=
  ⟨a.checks ++ b.checks, a.primitives ++ b.primitives⟩

instance : Append Notes := ⟨append⟩

end Notes

/-- A value with what it calls for, or the cause why there is none. -/
def Lowering (α : Type) := Except Unsupported (α × Notes)

namespace Lowering

variable {α β : Type}

def fail (cause : Unsupported) : Lowering α := Except.error cause

def note (notes : Notes) : Lowering Unit := Except.ok ((), notes)

instance : Monad Lowering where
  pure a := Except.ok (a, .none)
  bind x f := match x with
    | Except.error cause => Except.error cause
    | Except.ok (a, notes) =>
      match f a with
      | Except.error cause => Except.error cause
      | Except.ok (b, more) => Except.ok (b, notes ++ more)

def check (c : Check) : Lowering Unit := note ⟨[c], []⟩

def primitive (name : String) : Lowering Unit := note ⟨[], [name]⟩

end Lowering

open Lowering

/-- The operator in C; integer division rounds down in both of its forms. -/
def infixOp? : BinaryOp → Option InfixOp
  | .add => some .add
  | .sub => some .sub
  | .mul => some .mul
  | .div | .floorDiv => some .div
  | .mod => some .mod
  | .shiftLeft => some .shiftLeft
  | .shiftRight => some .shiftRight
  | .bitOr => some .bitOr
  | .bitXor => some .bitXor
  | .bitAnd => some .bitAnd
  | .pow | .matMul => none

/-- The comparison in C; identity and membership become equality. -/
def compareOp : CompareOp → InfixOp
  | .eq | .is | .isNot | .isIn | .notIn => .eq
  | .notEq => .notEq
  | .lt => .lt
  | .le => .le
  | .gt => .gt
  | .ge => .ge

def checksOf : BinaryOp → List Check
  | .add | .sub | .mul => [.overflow]
  | .div | .floorDiv | .mod => [.divByZero]
  | _ => []

def signOp : UnaryOp → SignOp
  | .not => .not
  | .neg => .neg
  | .pos => .pos
  | .invert => .invert

/-- A binary operation takes parentheses where its value is used. -/
def bare (e : Expr) (t : Term) : Term :=
  match e with
  | .binary .. => .paren t
  | _ => t

/-- A binary operation or a single comparison takes parentheses as an operand. -/
def grouped (e : Expr) (t : Term) : Term :=
  match e with
  | .binary .. | .compare _ _ [_] => .paren t
  | _ => t

/-- Each link of a comparison, with the operand before it on its left. -/
def linkTerms (left : Term) : List (CompareOp × Term) → List Term
  | [] => []
  | (op, right) :: links => .infix2 left (compareOp op) right :: linkTerms right links

/-- A single comparison stands alone; a chain is the conjunction of its links. -/
def chain (left : Term) (links : List (CompareOp × Term)) : Term :=
  match linkTerms left links with
  | [link] => link
  | terms => .paren (.joined .and (terms.map .paren))

def boolOp : BoolOp → InfixOp
  | .and => .and
  | .or => .or

def constantTerm (describe : String) : Constant → Lowering Term
  | .int value => pure (.int value)
  | .float value => pure (.float value)
  | .str body => pure (.str body)
  | .bool value => pure (.int (if value then 1 else 0))
  | .none => pure (.int 0)
  | .wideInt _ => fail .wideInt
  | .bytes _ | .imaginary _ | .ellipsis => fail (.kind describe)

def signTerm (op : UnaryOp) (operand : Term) : Term :=
  match op with
  | .not => .sign .not (.paren operand)
  | _ => .paren (.sign (signOp op) operand)

/-- A call by name; conversions to numbers become casts. -/
def callTerm (name : String) : List Term → Term
  | [x] =>
    match name with
    | "int" => .cast .int (.paren x)
    | "float" => .cast .float (.paren x)
    | "bool" => .paren (.infix2 (.paren x) .notEq (.int 0))
    | _ => .call (identifier name) [x]
  | args => .call (identifier name) args

/-- A call of a primitive, or else of a function by its name. -/
def lowerCall (v : Verifier) (func : Expr) (args : List Term) : Lowering Term :=
  match v.primitive? func with
  | some p =>
    if p = "assume" then pure (.call "__ESBMC_assume" args)
    else if Verifier.isNondet p then do
      primitive p
      return .call p []
    else fail (.verifierPrimitive p)
  | none =>
    match func with
    | .name _ id => pure (callTerm id args)
    | _ => fail (.callThrough func.describe)

def isSliceOrTuple : Expr → Bool
  | .slice .. | .tuple .. => true
  | _ => false

mutual

/-- The term of an expression, without parentheses around an outermost operator. -/
def lowerOpen (v : Verifier) : Expr → Lowering Term
  | .name _ id => pure (.ident (identifier id))
  | .constant _ value => constantTerm "constant" value
  | .binary _ left op right =>
    match infixOp? op with
    | none => fail (.operator op.symbol)
    | some sign => do
      note ⟨checksOf op, []⟩
      let l ← lowerOpen v left
      let r ← lowerOpen v right
      return .infix2 (grouped left l) sign (grouped right r)
  | .unary _ op operand => do
    let t ← lowerOpen v operand
    return signTerm op (grouped operand t)
  | .bool _ op values => do
    let terms ← lowerOperands v values
    return .paren (.joined (boolOp op) (terms.map .paren))
  | .compare _ left links => do
    let l ← lowerOpen v left
    let ls ← lowerLinks v links
    return chain (grouped left l) ls
  | .call _ func args keywords =>
    if keywords.isEmpty then do
      let terms ← lowerArgs v args
      lowerCall v func terms
    else fail .keywordArguments
  | .attr _ value attr =>
    if v.isReceiver value then fail (.verifierAttribute attr.text)
    else do
      check .pointer
      let base ← lowerOpen v value
      return .member (grouped value base) attr.text
  | .subscript _ value index =>
    if isSliceOrTuple index then fail (.kind index.describe)
    else do
      check .bounds
      let base ← lowerOpen v value
      let i ← lowerOpen v index
      return .index (grouped value base) (grouped index i)
  | .conditional _ test body orelse => do
    let t ← lowerOpen v test
    let b ← lowerOpen v body
    let o ← lowerOpen v orelse
    return .paren (.conditional (grouped test t) (grouped body b) (grouped orelse o))
  | e => fail (.kind e.describe)

/-- Operands, which keep their grouping. -/
def lowerOperands (v : Verifier) : List Expr → Lowering (List Term)
  | [] => pure []
  | e :: es => do
    let t ← lowerOpen v e
    let ts ← lowerOperands v es
    return grouped e t :: ts

/-- Arguments of a call, where a single comparison needs no parentheses. -/
def lowerArgs (v : Verifier) : List Expr → Lowering (List Term)
  | [] => pure []
  | e :: es => do
    let t ← lowerOpen v e
    let ts ← lowerArgs v es
    return bare e t :: ts

def lowerLinks (v : Verifier) : List (CompareOp × Expr) → Lowering (List (CompareOp × Term))
  | [] => pure []
  | (op, e) :: links => do
    let t ← lowerOpen v e
    let ts ← lowerLinks v links
    return (op, grouped e t) :: ts

end

/-- The term of an expression as an operand. -/
def lower (v : Verifier) (e : Expr) : Lowering Term := do
  return grouped e (← lowerOpen v e)

/-- The term of an expression that stands alone: a condition, an argument, a value. -/
def lowerBare (v : Verifier) (e : Expr) : Lowering Term := do
  return bare e (← lowerOpen v e)

end PyVerify.Code
