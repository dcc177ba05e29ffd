/-!
# Rounding quotients

`roundDiv` rounds a quotient of naturals to a neighbouring natural. A quotient that lies halfway
between two neighbours goes where the tie rule says.
-/

namespace PyVerify

/-- Where a value halfway between its two neighbours goes. -/
inductive Tie where
  | toEven
  | up
deriving DecidableEq, Repr

/-- The natural nearest to `num / den`. -/
def roundDiv (num den : Nat) (tie : Tie) : Nat :=
  let q := num / den
  match compare (2 * (num % den)) den, tie with
  | .lt, _ => q
  | .gt, _ => q + 1
  | .eq, .up => q + 1
  | .eq, .toEven => if q % 2 = 0 then q else q + 1

end PyVerify
