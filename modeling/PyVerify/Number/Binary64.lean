import PyVerify.Number.Rounding

/-!
# Binary floating-point numbers of 64 bits

A number is its bit pattern. `Binary64.ofRatio` and `Binary64.ofDecimal` round an exact value to
the nearest number, and a value halfway between two numbers to the one with an even significand.
-/

namespace PyVerify

/-- A number of the 64-bit binary format: one sign bit, eleven exponent bits, 52 fraction bits. -/
structure Binary64 where
  bits : UInt64
deriving DecidableEq, Repr, Inhabited

namespace Binary64

def isNegative (x : Binary64) : Bool :=
  x.bits >>> 63 == 1

def exponentBits (x : Binary64) : Nat :=
  ((x.bits >>> 52) &&& 0x7FF).toNat

def fractionBits (x : Binary64) : Nat :=
  (x.bits &&& 0xFFFFFFFFFFFFF).toNat

def isInfinite (x : Binary64) : Bool :=
  x.exponentBits == 0x7FF && x.fractionBits == 0

def isNaN (x : Binary64) : Bool :=
  x.exponentBits == 0x7FF && x.fractionBits != 0

/-- The significand of a finite number: its absolute value is `significand * 2 ^ exponent`. -/
def significand (x : Binary64) : Nat :=
  if x.exponentBits = 0 then x.fractionBits else Nat.pow 2 52 + x.fractionBits

/-- The exponent that belongs to `significand`. -/
def exponent (x : Binary64) : Int :=
  if x.exponentBits = 0 then -1074 else x.exponentBits - 1075

def zero : Binary64 := ⟨0⟩

/-- A finite number above zero. -/
def isPositive (x : Binary64) : Bool :=
  x.exponentBits != 0x7FF && !x.isNegative && x.significand != 0

def infinity : Binary64 := ⟨0x7FF0000000000000⟩

def negate (x : Binary64) : Binary64 := ⟨x.bits ^^^ 0x8000000000000000⟩

/-- The exponent of the leading binary digit of `num / den`, both positive. -/
def leadingExponent (num den : Nat) : Int :=
  let e : Int := num.log2 - den.log2
  if den * Nat.pow 2 e.toNat ≤ num * Nat.pow 2 (-e).toNat then e else e - 1

/-- The number nearest to the quotient of two naturals, ties to even. -/
def ofRatio (num den : Nat) : Binary64 :=
  if num = 0 then zero
  else
    let p := max (leadingExponent num den - 52) (-1074)
    let m := roundDiv (num * Nat.pow 2 (-p).toNat) (den * Nat.pow 2 p.toNat) .toEven
    -- A carry out of the significand lands in the exponent bits, where it belongs.
    let b := (p + 1074).toNat * Nat.pow 2 52 + m
    if b < 0x7FF0000000000000 then ⟨b.toUInt64⟩ else infinity

/--
The number nearest to `m * 10 ^ e`. Values beyond `10 ^ 400` or below `10 ^ (-400)` are far
outside the format's range, and their powers of ten are never computed.
-/
def ofDecimal (m : Nat) (e : Int) : Binary64 :=
  if m = 0 then zero
  else if 400 < e then infinity
  else if e + (m.log2 / 3 + 1) < -400 then zero
  else ofRatio (m * Nat.pow 10 e.toNat) (Nat.pow 10 (-e).toNat)

/-- A finite number as a quotient of naturals, its sign left out. -/
def toRatio (x : Binary64) : Nat × Nat :=
  (x.significand * Nat.pow 2 x.exponent.toNat, Nat.pow 2 (-x.exponent).toNat)

example : ofDecimal 1 (-1) = ⟨0x3FB999999999999A⟩ := by decide +kernel

example : ofDecimal 24703282292062327208 (-343) = ⟨0⟩ := by decide +kernel

example : ofDecimal 24703282292062328 (-340) = ⟨1⟩ := by decide +kernel

end Binary64
end PyVerify
