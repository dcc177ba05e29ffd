import PyVerify.Number.Binary64

/-!
# Tables of settings

The values of a settings file and the rules for adding to its tables: a key has one value, a header
names a table once, and a table in braces is complete where it stands.
-/

namespace PyVerify.Toml

/-- How a table came to be. -/
inductive TableKind where
  /-- On the way to a table with a header. -/
  | onWay
  /-- On the way to a value with a dotted key. -/
  | dotted
  | header
  | braces
deriving DecidableEq, Repr

inductive Value where
  | string (s : String)
  | integer (n : Int)
  | float (x : Binary64)
  | bool (b : Bool)
  | date
  | array (items : List Value)
  | table (kind : TableKind) (members : List (String × Value))
  /-- The tables whose headers stand in double brackets. -/
  | tables (items : List (List (String × Value)))
deriving Repr

abbrev Members := List (String × Value)

/-- Gives a key its value, in its old place if it has one. -/
def Members.put (key : String) (value : Value) : Members → Members
  | [] => [(key, value)]
  | (k, v) :: rest => if k = key then (key, value) :: rest else (k, v) :: put key value rest

/-- A change to a table that may be refused. -/
abbrev Change := TableKind → Members → Option (TableKind × Members)

/--
Changes the table that names lead to; missing tables on the way are made. Dotted keys do not lead
into tables with headers, and nothing leads into a table in braces.
-/
def change (dotted : Bool) (f : Change) : List String → Change
  | [] => f
  | key :: path => fun kind members => do
    let value ← match members.lookup key with
      | none =>
        let (k, ms) ← change dotted f path (if dotted then .dotted else .onWay) []
        pure (.table k ms)
      | some (.table .braces _) => none
      | some (.table .header ms) =>
        if dotted then none
        else
          let (k, ms) ← change dotted f path .header ms
          pure (.table k ms)
      | some (.table k ms) =>
        let (k, ms) ← change dotted f path k ms
        pure (.table k ms)
      | some (.tables items) =>
        let (_, last) ← change dotted f path .header (items.getLast?.getD [])
        pure (.tables (items.dropLast ++ [last]))
      | some _ => none
    return (kind, Members.put key value members)

/-- Adds a value that is not there yet, under a key with names before it. -/
def addValue (path : List String) (key : String) (value : Value) : Change :=
  change true (fun kind members =>
    if (kind = .dotted) = (path = []) ∨ (members.lookup key).isSome then none
    else some (kind, members ++ [(key, value)])) path

/-- Starts a table with a header. -/
def addTable (path : List String) (key : String) : Change :=
  change false (fun kind members =>
    match members.lookup key with
    | none => some (kind, members ++ [(key, .table .header [])])
    | some (.table .onWay ms) => some (kind, Members.put key (.table .header ms) members)
    | some _ => none) path

/-- Starts one more table with a header in double brackets. -/
def addTables (path : List String) (key : String) : Change :=
  change false (fun kind members =>
    match members.lookup key with
    | none => some (kind, members ++ [(key, .tables [[]])])
    | some (.tables items) => some (kind, Members.put key (.tables (items ++ [[]])) members)
    | some _ => none) path

end PyVerify.Toml
