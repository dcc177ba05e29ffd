import PyVerify.Code.Lowering
import PyVerify.Code.Print

namespace PyVerify.Code

-- What stands before an operand and takes it with everything that is written behind the operand.
inductive Prefix where
  | sign (op : SignOp)
  | cast (type : CType)
deriving DecidableEq, Repr

-- An expression as its operators are applied. A name or a literal is given by its text.
inductive Operation where
  | atom (text : String)
  | infix2 (left : Operation) (op : InfixOp) (right : Operation)
  | lead (p : Prefix) (operand : Operation)
  | conditional (test body orelse : Operation)
  | call (func : Operation) (args : List Operation)
  | index (base index : Operation)
  | member (base : Operation) (name : String)
deriving Repr

namespace Operation

-- Operands joined by one operator, which has on its left everything that stands before it.
def joined (op : InfixOp) : List Operation → Operation
  | []      => .atom ""
  | x :: xs => xs.foldl (.infix2 · op ·) x

-- The links of a comparison, each with the operand before it on its left.
def compared (x : Operation) : List (InfixOp × Operation) → List Operation
  | []            => []
  | (op, y) :: ys => .infix2 x op y :: compared y ys

-- A call by name. Conversions to numbers are casts, and that to a truth value is a comparison.
def called (name : String) : List Operation → Operation
  | [x] =>
    match name with
    | "int"   => .lead (.cast .int) x
    | "float" => .lead (.cast .float) x
    | "bool"  => .infix2 x .notEq (.atom "0")
    | _       => .call (.atom (identifier name)) [x]
  | xs => .call (.atom (identifier name)) xs

variable {op : InfixOp} {x y : Operation} {xs ys : List Operation} {ls ms : List (InfixOp × Operation)}

theorem foldl_infix2_inj (hl : xs.length = ys.length)
    (h : xs.foldl (.infix2 · op ·) x = ys.foldl (.infix2 · op ·) y) : x = y ∧ xs = ys := by
  induction xs generalizing ys x y
  case nil =>
    obtain rfl := List.length_eq_zero_iff.mp hl.symm
    exact ⟨h, rfl⟩
  case cons a xs hi =>
    cases ys
    case nil => cases hl
    case cons b ys =>
      have ht : xs.length = ys.length := by simpa using hl
      obtain ⟨he, rfl⟩ := hi ht h
      cases he
      exact ⟨rfl, rfl⟩

theorem joined_inj (hl : xs.length = ys.length) : joined op xs = joined op ys ↔ xs = ys := by
  refine ⟨fun h => ?_, congrArg _⟩
  cases xs
  case nil => exact (List.length_eq_zero_iff.mp hl.symm).symm
  case cons x xs =>
    cases ys
    case nil => cases hl
    case cons y ys =>
      obtain ⟨rfl, rfl⟩ := foldl_infix2_inj (by simpa using hl) h
      rfl

theorem length_compared : (compared x ls).length = ls.length := by
  induction ls generalizing x <;> simp_all [compared]

theorem compared_inj (hn : ls ≠ []) : compared x ls = compared y ms ↔ x = y ∧ ls = ms := by
  refine ⟨fun h => ?_, fun ⟨hx, hl⟩ => hx ▸ hl ▸ rfl⟩
  induction ls generalizing x y ms
  case nil => exact (hn rfl).elim
  case cons l ls hi =>
    cases ms
    case nil => cases h
    case cons m ms =>
      obtain ⟨h₁, h₂⟩ := List.cons_eq_cons.mp h
      injection h₁ with hx ho hz
      obtain rfl := Prod.ext ho hz
      cases ls
      case nil =>
        obtain rfl : ms = [] := by cases ms <;> simp_all [compared]
        exact ⟨hx, rfl⟩
      case cons l' ls =>
        obtain ⟨-, rfl⟩ := hi (List.cons_ne_nil _ _) h₂
        exact ⟨hx, rfl⟩

theorem called_inj {name : String} : called name xs = called name ys ↔ xs = ys := by
  refine ⟨fun h => ?_, congrArg _⟩
  unfold called at h
  grind

end Operation
end PyVerify.Code
