import PyVerify.Number.Shortest

/-!
# Decimals with fixed places

`Binary64.fixed` rounds the exact value to some decimal places, a tie to the even digit.
`Binary64.plain` is the shortest decimal that reads back, without an exponent and without a
fraction of zero. Sums, products and quotients of finite numbers are rounded once.
-/

namespace PyVerify.Binary64

def ofNat (n : Nat) : Binary64 :=
  ofRatio n 1

/-- Gives a number the sign. -/
def signed (negative : Bool) (x : Binary64) : Binary64 :=
  if negative then x.negate else x

/-- The sum of two finite numbers that are not negative. -/
def add (x y : Binary64) : Binary64 :=
  let (a, b) := x.toRatio
  let (c, d) := y.toRatio
  ofRatio (a * d + c * b) (b * d)

/-- The product of two finite numbers. -/
def mul (x y : Binary64) : Binary64 :=
  let (a, b) := x.toRatio
  let (c, d) := y.toRatio
  signed (x.isNegative != y.isNegative) (ofRatio (a * c) (b * d))

/-- The quotient of two finite numbers, the second one not zero. -/
def div (x y : Binary64) : Binary64 :=
  let (a, b) := x.toRatio
  let (c, d) := y.toRatio
  signed (x.isNegative != y.isNegative) (ofRatio (a * d) (b * c))

/-- The digits of a natural number, at least this many. -/
def padded (width n : Nat) : String :=
  let ds := toString n
  String.ofList (List.replicate (width - ds.length) '0') ++ ds

/-- A finite number with this many decimal places, at least one. -/
def fixed (places : Nat) (x : Binary64) : String :=
  let (num, den) := x.toRatio
  let unit := Nat.pow 10 places
  let scaled := roundDiv (num * unit) den .toEven
  let sign := if x.isNegative then "-" else ""
  sign ++ toString (scaled / unit) ++ "." ++ padded places (scaled % unit)

/-- The shortest decimal of a positive number that reads back, without an exponent. -/
def positional (d : Decimal) : String :=
  let ds := toString d.digits
  if 0 ≤ d.exponent then ds ++ String.ofList (List.replicate d.exponent.toNat '0')
  else
    let places := (-d.exponent).toNat
    let whole := ds.length - places
    if whole = 0 then "0." ++ padded places d.digits
    else String.ofList (ds.toList.take whole) ++ "." ++ String.ofList (ds.toList.drop whole)

/-- A finite number without an exponent. -/
def plain (x : Binary64) : String :=
  let sign := if x.isNegative then "-" else ""
  sign ++ (if x.significand = 0 then "0" else positional (Decimal.shortest x .up))

example : fixed 3 (ofDecimal 5 (-4)) = "0.001" := by decide +kernel

example : fixed 2 (ofDecimal 125 (-3)) = "0.12" := by decide +kernel

example : plain (ofDecimal 4 (-1)) = "0.4" := by decide +kernel

example : plain (ofNat 100) = "100" := by decide +kernel

end PyVerify.Binary64
