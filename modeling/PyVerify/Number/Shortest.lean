import PyVerify.Number.Binary64

/-!
# Shortest decimals

A decimal reads back to a binary number when no other number of the format is nearer. `digits`
selects the decimal with the fewest digits that reads back, of two such decimals the nearer one;
`Notation` says how the digits are laid out.
-/

namespace PyVerify

/-- The decimal number `digits * 10 ^ exponent`. -/
structure Decimal where
  digits : Nat
  exponent : Int
deriving DecidableEq, Repr

namespace Decimal

/-- Compares `a * 10 ^ i` with `b * 2 ^ j`. -/
def compareScaled (a : Nat) (i : Int) (b : Nat) (j : Int) : Ordering :=
  compare (a * Nat.pow 10 i.toNat * Nat.pow 2 (-j).toNat)
    (b * Nat.pow 2 j.toNat * Nat.pow 10 (-i).toNat)

/-- The decimal lies among the reals that round to the finite number `x`. -/
def ReadsBack (d : Decimal) (x : Binary64) : Bool :=
  -- Just above a power of two the gap to the number below is only half as wide.
  let narrow := x.fractionBits == 0 && 1 < x.exponentBits
  let low := compareScaled d.digits d.exponent (4 * x.significand - if narrow then 1 else 2) (x.exponent - 2)
  let high := compareScaled d.digits d.exponent (4 * x.significand + 2) (x.exponent - 2)
  let closed := x.significand % 2 == 0
  (low == .gt || (closed && low == .eq)) && (high == .lt || (closed && high == .eq))

/-- The least `k` with `x < 10 ^ k`, for a positive `x`; the search starts below it. -/
def scale (x : Binary64) : Int :=
  let start : Int := (((x.significand.log2 : Int) + x.exponent) * 30103).fdiv 100000
  if compareScaled 1 start x.significand x.exponent == .gt then start
  else if compareScaled 1 (start + 1) x.significand x.exponent == .gt then start + 1
  else start + 2

/-- The better of the neighbours of `x` on the grid of multiples of `10 ^ e`, if one reads back. -/
def onGrid? (x : Binary64) (e : Int) (tie : Tie) : Option Decimal :=
  let (num, den) := x.toRatio
  let num := num * Nat.pow 10 (-e).toNat
  let den := den * Nat.pow 10 e.toNat
  let lower : Decimal := ⟨num / den, e⟩
  let upper : Decimal := ⟨num / den + 1, e⟩
  match lower.ReadsBack x, upper.ReadsBack x with
  | true, true => some ⟨roundDiv num den tie, e⟩
  | true, false => some lower
  | false, true => some upper
  | false, false => none

/-- Moves trailing zeros of the digits into the exponent. -/
def strip (d : Decimal) : Decimal :=
  go d.digits d.digits d.exponent
where
  go : Nat → Nat → Int → Decimal
    | 0, digits, e => ⟨digits, e⟩
    | fuel + 1, digits, e =>
      if digits ≠ 0 ∧ digits % 10 = 0 then go fuel (digits / 10) (e + 1) else ⟨digits, e⟩

/-- The decimal with the fewest digits that reads back to the finite positive number `x`. -/
def shortest (x : Binary64) (tie : Tie) : Decimal :=
  let k := scale x
  match (List.range 17).findSome? fun n : Nat => onGrid? x (k - (n + 1)) tie with
  | some d => d.strip
  -- The exact value, which always reads back.
  | none =>
    ⟨x.significand * Nat.pow 2 x.exponent.toNat * Nat.pow 5 (-x.exponent).toNat, min x.exponent 0⟩

/-- How a number is laid out. -/
structure Notation where
  /-- Numbers whose leading digit has at least this exponent, -/
  plainFrom : Int
  /-- and less than this one, are written without an exponent. -/
  plainBelow : Int
  /-- Where a decimal halfway between its neighbours goes. -/
  tie : Tie
deriving Repr

private def zeros (n : Nat) : String :=
  String.ofList (List.replicate n '0')

/-- A positive decimal in the given notation: a point and a digit follow whenever there is no exponent. -/
def layout (n : Notation) (d : Decimal) : String :=
  let ds := toString d.digits
  let len : Int := ds.length
  let lead := d.exponent + len - 1
  if n.plainFrom ≤ lead ∧ lead < n.plainBelow then
    if 0 ≤ d.exponent then ds ++ zeros d.exponent.toNat ++ ".0"
    else if 0 ≤ lead then
      let whole := (lead + 1).toNat
      String.ofList (ds.toList.take whole) ++ "." ++ String.ofList (ds.toList.drop whole)
    else "0." ++ zeros (-lead - 1).toNat ++ ds
  else
    let mantissa := match ds.toList with
      | [c] => String.ofList [c]
      | c :: cs => String.ofList (c :: '.' :: cs)
      | [] => ""
    mantissa ++ "e" ++ toString lead

end Decimal

/-- The shortest text that reads back to the number. -/
def Binary64.render (n : Decimal.Notation) (x : Binary64) : String :=
  if x.isNaN then "NaN"
  else
    let sign := if x.isNegative then "-" else ""
    let magnitude :=
      if x.isInfinite then "inf"
      else if x.significand = 0 then "0.0"
      else Decimal.layout n (Decimal.shortest x n.tie)
    sign ++ magnitude

/-- Floats inside messages: positional from `10 ^ (-4)` and below `10 ^ 16`, a tie goes up. -/
def Binary64.messageNotation : Decimal.Notation := ⟨-4, 16, .up⟩

example : (Binary64.ofDecimal 1 16).render Binary64.messageNotation = "1e16" := by decide +kernel

example : (Binary64.ofDecimal 15 (-8)).render Binary64.messageNotation = "1.5e-7" := by decide +kernel

example : (Binary64.ofDecimal 1 (-1)).render Binary64.messageNotation = "0.1" := by decide +kernel

end PyVerify
