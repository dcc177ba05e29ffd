/-!
# Property checks

The properties that an analysed program gives reason to check.
-/

namespace PyVerify

inductive Check where
  | overflow
  | bounds
  | divByZero
  | pointer
deriving DecidableEq, Repr

namespace Check

def all : List Check := [overflow, bounds, divByZero, pointer]

def name : Check → String
  | overflow => "overflow"
  | bounds => "bounds"
  | divByZero => "div-by-zero"
  | pointer => "pointer"

def ofName? (name : String) : Option Check :=
  all.find? (·.name == name)

theorem ofName?_name (c : Check) : ofName? c.name = some c := by
  cases c <;> decide

end Check
end PyVerify
