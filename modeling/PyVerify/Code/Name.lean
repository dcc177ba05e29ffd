import PyVerify.Code.Syntax

/-!
# Names in C

How a name of the source is written in C, and which C type a primitive of the verifier has.
-/

namespace PyVerify.Code

/-- Words of C that no variable or function can have as its name. -/
def reserved : List String := [
  "auto", "case", "char", "const", "default", "do", "double", "enum", "extern", "float", "goto",
  "int", "long", "register", "short", "signed", "sizeof", "static", "struct", "switch", "typedef",
  "union", "unsigned", "void", "volatile"]

/-- The name in C: the entry point's name is kept free, and so are reserved words. -/
def identifier (name : String) : String :=
  if name = "main" then "user_main"
  else if reserved.contains name then "py_" ++ name
  else name

/-- The result of a primitive that gives an arbitrary value. -/
def primitiveType (name : String) : CType :=
  match name with
  | "nondet_uint" => .unsignedInt
  | "nondet_bool" => .bool
  | "nondet_char" => .char
  | "nondet_uchar" => .unsignedChar
  | "nondet_short" => .short
  | "nondet_ushort" => .unsignedShort
  | "nondet_long" => .long
  | "nondet_ulong" => .unsignedLong
  | "nondet_float" => .float
  | "nondet_double" => .double
  | _ => .int

end PyVerify.Code
