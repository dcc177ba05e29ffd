import PyVerify.Number.Binary64

/-!
# C code

The C programs that a translation produces. A term is concrete syntax: parentheses are nodes of
their own, and nothing is added when it is written down.
-/

namespace PyVerify.Code

inductive CType where
  | int
  | unsignedInt
  | bool
  | char
  | unsignedChar
  | short
  | unsignedShort
  | long
  | unsignedLong
  | float
  | double
  | string
deriving DecidableEq, Repr

inductive InfixOp where
  | add
  | sub
  | mul
  | div
  | mod
  | shiftLeft
  | shiftRight
  | bitOr
  | bitXor
  | bitAnd
  | eq
  | notEq
  | lt
  | le
  | gt
  | ge
  | and
  | or
deriving DecidableEq, Repr

inductive SignOp where
  | not
  | neg
  | pos
  | invert
deriving DecidableEq, Repr

inductive Term where
  | ident (name : String)
  | int (value : Nat)
  | float (value : Binary64)
  /-- A string literal; the body has its escapes as written between Python's quotes. -/
  | str (body : String)
  | infix2 (left : Term) (op : InfixOp) (right : Term)
  /-- Operands joined by one operator. -/
  | joined (op : InfixOp) (operands : List Term)
  | sign (op : SignOp) (operand : Term)
  | paren (inner : Term)
  | conditional (test body orelse : Term)
  | call (func : String) (args : List Term)
  | cast (type : CType) (operand : Term)
  | index (base index : Term)
  | member (base : Term) (name : String)
deriving Repr

/-- Why an expression has no counterpart in C. -/
inductive Unsupported where
  /-- An expression of a kind that is not translated. -/
  | kind (what : String)
  | wideInt
  | operator (symbol : String)
  | keywordArguments
  | verifierAttribute (name : String)
  | verifierPrimitive (name : String)
  | callThrough (what : String)
deriving DecidableEq, Repr

/-- What a comment stands for in place of code. -/
inductive Placeholder where
  | kind (what : String)
  | assignment (cause : Unsupported)
  | unpacking
  | augmented (symbol : String)
  | augmentedAssignment (cause : Unsupported)
  | assertion (cause : Unsupported)
  | expression (cause : Unsupported)
  | loopTarget
  | loopIterable
  | rangeBound (cause : Unsupported)
  | loopElse
  | guardElse
deriving DecidableEq, Repr

inductive Condition where
  | term (t : Term)
  /-- A condition without counterpart counts as false. -/
  | unsupported (cause : Unsupported)
deriving Repr

/-- The loop over a range: from `start` while the counter has not reached `stop`. -/
structure RangeHeader where
  counter : String
  start : Term
  stop : Term
  /-- Added after each round; one if absent. -/
  step : Option Term
  descending : Bool
deriving Repr

inductive Stmt where
  | declare (type : CType) (name : String) (value : Option Term)
  | assign (target value : Term)
  | augment (target : Term) (op : InfixOp) (value : Term)
  | term (t : Term)
  | return (value : Term)
  /-- A return whose value has no counterpart. -/
  | returnUnsupported
  | break
  | continue
  | while (test : Condition) (body : List Stmt)
  | if (branches : List (Condition × List Stmt)) (orelse : Option (List Stmt))
  | forRange (header : RangeHeader) (body : List Stmt)
  | placeholder (what : Placeholder)
deriving Repr

def Stmt.isPlaceholder : Stmt → Bool
  | placeholder _ => true
  | _ => false

structure Function where
  result : CType
  name : String
  params : List (CType × String)
  body : List Stmt
deriving Repr

/-- A definition of the source: a function, or a comment in its place. -/
inductive Definition where
  | function (f : Function)
  | placeholder (what : Placeholder)
deriving Repr

structure Program where
  /-- Assertions come from the standard header, not from the verifier. -/
  standardAssert : Bool
  /-- The primitives of the verifier that are called. -/
  primitives : List (CType × String)
  definitions : List Definition
  main : List Stmt
deriving Repr

end PyVerify.Code
