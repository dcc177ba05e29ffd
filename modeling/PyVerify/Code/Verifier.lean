import PyVerify.Tree.Stmt

/-!
# The verifier's bindings

How a program refers to the verifier's primitives: through the module or an alias of it, through
imported names, or through all names at once.
-/

namespace PyVerify.Code

/-- What the top-level imports of a program say about the verifier's module. -/
structure Verifier where
  imported : Bool
  /-- The names that stand for the module. -/
  receivers : List String
  /-- The names that stand for a primitive; the last entry of a name counts. -/
  bare : List (String × String)
  /-- All names of the module are imported. -/
  star : Bool
deriving DecidableEq, Repr

namespace Verifier

def moduleName : String := "esbmc"

def none : Verifier := ⟨false, [], [], false⟩

def addName (v : Verifier) (a : Alias) : Verifier :=
  if a.name = "*" then { v with star := true }
  else { v with bare := v.bare ++ [(a.boundName, a.name)] }

def add (v : Verifier) : PyVerify.Stmt → Verifier
  | .importModules _ names =>
    match names.filter (·.name = moduleName) with
    | [] => v
    | found => { v with imported := true, receivers := v.receivers ++ found.map Alias.boundName }
  | .importFrom _ (some module) names _ =>
    if module = moduleName then names.foldl addName { v with imported := true } else v
  | _ => v

def ofModule (m : Module) : Verifier :=
  m.body.foldl add none

def isNondet (name : String) : Bool :=
  name.startsWith "nondet_"

/-- The primitive that a called expression names. -/
def primitive? (v : Verifier) : Expr → Option String
  | .attr _ (.name _ receiver) attr =>
    if v.receivers.contains receiver then some attr.text else Option.none
  | .name _ id =>
    match v.bare.reverse.lookup id with
    | some p => some p
    | Option.none => if v.star && (isNondet id || id = "assume") then some id else Option.none
  | _ => Option.none

def isReceiver (v : Verifier) : Expr → Bool
  | .name _ id => v.receivers.contains id
  | _ => false

end Verifier
end PyVerify.Code
