import PyVerify.Tree.Expr

/-!
# Assignment targets

What may stand to the left of an assignment: names, attributes, subscripts, and starred expressions,
tuples and lists built from them.
-/

namespace PyVerify.Expr

mutual

/-- The first part of an expression that keeps it from being a target. -/
def unassignable? : Expr → Option Expr
  | name .. | attr .. | subscript .. => none
  | starred _ value => value.unassignable?
  | tuple _ items | list _ items => firstUnassignable? items
  | e => some e

def firstUnassignable? : List Expr → Option Expr
  | [] => none
  | e :: es =>
    match e.unassignable? with
    | some part => some part
    | none => firstUnassignable? es

end

/-- A single place: a name, an attribute or a subscript. -/
def isPlace : Expr → Bool
  | name .. | attr .. | subscript .. => true
  | _ => false

def isName : Expr → Bool
  | name .. => true
  | _ => false

end PyVerify.Expr
