/-!
# Operators of expressions

Binary, unary, boolean and comparison operators. `BinaryOp.symbol` is how a binary operator is
written in a source text.
-/

namespace PyVerify

inductive BinaryOp where
  | add
  | sub
  | mul
  | matMul
  | div
  | floorDiv
  | mod
  | pow
  | shiftLeft
  | shiftRight
  | bitOr
  | bitXor
  | bitAnd
deriving DecidableEq, Repr

namespace BinaryOp

def symbol : BinaryOp → String
  | add => "+"
  | sub => "-"
  | mul => "*"
  | matMul => "@"
  | div => "/"
  | floorDiv => "//"
  | mod => "%"
  | pow => "**"
  | shiftLeft => "<<"
  | shiftRight => ">>"
  | bitOr => "|"
  | bitXor => "^"
  | bitAnd => "&"

/-- The operator's name in messages. -/
def label : BinaryOp → String
  | add => "Add"
  | sub => "Sub"
  | mul => "Mul"
  | matMul => "MatMul"
  | div => "Div"
  | floorDiv => "FloorDiv"
  | mod => "Mod"
  | pow => "Pow"
  | shiftLeft => "LShift"
  | shiftRight => "RShift"
  | bitOr => "BitOr"
  | bitXor => "BitXor"
  | bitAnd => "BitAnd"

end BinaryOp

inductive UnaryOp where
  | not
  | neg
  | pos
  | invert
deriving DecidableEq, Repr

inductive BoolOp where
  | and
  | or
deriving DecidableEq, Repr

inductive CompareOp where
  | eq
  | notEq
  | lt
  | le
  | gt
  | ge
  | is
  | isNot
  | isIn
  | notIn
deriving DecidableEq, Repr

end PyVerify
