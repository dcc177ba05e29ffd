import PyVerify.Code.Lowering

/-!
# Declarations

Which C type a name has, and which names have to be declared before the first statement: a name that
is first assigned inside a block would otherwise end with the block.
-/

namespace PyVerify.Code

namespace Verifier

/-- Integers are unsigned in programs that are written for the verifier. -/
def intType (v : Verifier) : CType :=
  if v.imported then .unsignedInt else .int

/-- The type that an annotation stands for. -/
def annotationType (v : Verifier) : Option Expr → CType
  | some (.name _ "float") => .float
  | some (.name _ "str") => .string
  | _ => v.intType

/-- The type of a name that gets this value. -/
def valueType (v : Verifier) : Expr → CType
  | .call _ func _ _ =>
    match v.primitive? func with
    | some p => if isNondet p then primitiveType p else v.intType
    | Option.none => v.intType
  | .constant _ (.float _) => .float
  | .constant _ (.str _) => .string
  | _ => v.intType

end Verifier

/-- An assignment to a name. -/
structure Binding where
  name : String
  type : CType
  /-- The assignment is inside a block, or part of an unpacking. -/
  nested : Bool
deriving DecidableEq, Repr

/-- The arguments of a call to `range` with one to three of them. -/
def rangeArgs? : Expr → Option (List Expr)
  | .call _ (.name _ "range") args keywords =>
    if keywords.isEmpty && 1 ≤ args.length && args.length ≤ 3 then some args else none
  | _ => none

mutual

/-- The names that an assignment to a target binds, of this type if the target is a name. -/
def targetBindings (v : Verifier) (type : CType) (nested : Bool) : Expr → List Binding
  | .name _ id => [⟨id, type, nested⟩]
  | .tuple _ items | .list _ items => targetsBindings v items
  | .starred _ value => targetBindings v v.intType true value
  | _ => []

/-- The names bound by the parts of an unpacking. -/
def targetsBindings (v : Verifier) : List Expr → List Binding
  | [] => []
  | e :: es => targetBindings v v.intType true e ++ targetsBindings v es

end

mutual

/-- The assignments of a statement in source order. -/
def stmtBindings (v : Verifier) (nested : Bool) : PyVerify.Stmt → List Binding
  | .assign _ targets value => targets.flatMap (targetBindings v (v.valueType value) nested)
  | .annAssign _ target annotation _ =>
    targetBindings v (v.annotationType (some annotation)) nested target
  | .for _ _ target iter body _ =>
    if (rangeArgs? iter).isSome then
      targetBindings v v.intType nested target ++ blockBindings v true body
    else []
  | .while _ _ body _ => blockBindings v true body
  | .if _ _ body orelse => blockBindings v true body ++ blockBindings v true orelse
  | _ => []

def blockBindings (v : Verifier) (nested : Bool) : List PyVerify.Stmt → List Binding
  | [] => []
  | s :: ss => stmtBindings v nested s ++ blockBindings v nested ss

end

/-- The names whose first assignment is nested, apart from those already `seen`. -/
def hoisted (seen : List String) : List Binding → List Binding
  | [] => []
  | b :: bs =>
    if seen.contains b.name then hoisted seen bs
    else if b.nested then b :: hoisted (b.name :: seen) bs
    else hoisted (b.name :: seen) bs

end PyVerify.Code
