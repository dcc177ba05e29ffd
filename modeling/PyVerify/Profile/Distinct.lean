/-!
# Lists without repetition

`distinct` keeps the first of equal values, in order.
-/

namespace PyVerify

variable {α : Type} [BEq α]

/-- Adds the values that are not in a list yet, each once. -/
def addDistinct (kept values : List α) : List α :=
  values.foldl (fun kept x => if kept.contains x then kept else kept ++ [x]) kept

/-- Keeps the first of equal values. -/
def distinct (values : List α) : List α :=
  addDistinct [] values

end PyVerify
