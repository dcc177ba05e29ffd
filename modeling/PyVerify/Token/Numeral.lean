import PyVerify.Number.Digits
import PyVerify.Token.Kind

/-!
# Numerals

Integer, floating-point and imaginary literals. `Numeral.measure` finds the longest numeral at the
start of a text, `Numeral.kind?` its value. Underscores may separate the digits of an integer one
at a time; elsewhere they are ignored.
-/

namespace PyVerify.Token.Numeral

inductive Form where
  | decimal
  | radix (base : Nat)
  | float
  | imaginary
deriving DecidableEq, Repr

def isDigitOrUnderscore (c : Char) : Bool :=
  c.isDigit || c == '_'

/-- The base that a letter behind a leading zero stands for. -/
def baseOf? (c : Char) : Option Nat :=
  if c = 'b' ∨ c = 'B' then some 2
  else if c = 'o' ∨ c = 'O' then some 8
  else if c = 'x' ∨ c = 'X' then some 16
  else none

/-- The base and the length of an integer with a base, such as `0x1f`. -/
def measureRadix? : List Char → Option (Nat × Nat)
  | '0' :: c :: cs =>
    match baseOf? c with
    | some base =>
      let digits := cs.takeWhile fun d => Digits.isOf base d || d == '_'
      if digits.isEmpty then none else some (base, digits.length + 2)
    | none => none
  | _ => none

/-- The length of an exponent such as `e-7` at the start, zero if there is none. -/
def exponentLength : List Char → Nat
  | [] => 0
  | c :: cs =>
    if c = 'e' ∨ c = 'E' then
      let sign := match cs.head? with
        | some '+' | some '-' => 1
        | _ => 0
      let digits := (cs.drop sign).takeWhile Char.isDigit
      if digits.isEmpty then 0 else 1 + sign + digits.length
    else 0

/-- The form and the length of the numeral at the start of a text. -/
def measure (cs : List Char) : Form × Nat :=
  match measureRadix? cs with
  | some (base, length) => (.radix base, length)
  | none =>
    let whole := (cs.takeWhile isDigitOrUnderscore).length
    let rest := cs.drop whole
    let fraction := match rest with
      | '.' :: more => 1 + (more.takeWhile isDigitOrUnderscore).length
      | _ => 0
    let exponent := exponentLength (rest.drop fraction)
    match rest.drop (fraction + exponent) with
    | 'j' :: _ | 'J' :: _ => (.imaginary, whole + fraction + exponent + 1)
    | _ => (if fraction + exponent = 0 then .decimal else .float, whole + fraction + exponent)

/-- An integer token: its value if that has 64 bits, else the text behind the base's letter. -/
def integer (base : Nat) (lead digits : List Char) : Kind :=
  let value := Digits.toNat base digits
  if value < UInt64.size then .int value else .wideInt (String.ofList (lead ++ digits))

/-- The token of a numeral; none if its underscores are misplaced. -/
def kind? (form : Form) (text : List Char) : Option Kind :=
  match form with
  | .decimal =>
    if Digits.wellSeparated text then some (integer 10 [] (Digits.withoutUnderscores text))
    else none
  | .radix base =>
    let digits := (text.drop 2).dropWhile (· = '_')
    if Digits.wellSeparated digits then
      some (integer base (text.take 2) (Digits.withoutUnderscores digits))
    else none
  | .float => some (.float (Digits.toBinary64 text))
  | .imaginary => some (.imaginary (Digits.toBinary64 text.dropLast))

example : measure "0b2".toList = (.decimal, 1) := by decide +kernel

example : measure "1e+".toList = (.decimal, 1) := by decide +kernel

example : measure "1_0.5e-3j*".toList = (.imaginary, 9) := by decide +kernel

example : kind? (.radix 16) "0x_FF".toList = some (.int 255) := by decide +kernel

end PyVerify.Token.Numeral
