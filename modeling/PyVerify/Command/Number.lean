import PyVerify.Number.Digits
import PyVerify.Number.Fixed

/-!
# Numbers on a command line

Whole numbers within limits, and decimals with a point, an exponent or a name.
-/

namespace PyVerify.Command

/-- Digits, of which there is at least one. -/
def digits? (text : List Char) : Option Nat :=
  if text ≠ [] ∧ text.all Char.isDigit then some (Digits.toNat 10 text) else none

/-- A number below a limit; a plus sign may precede it. -/
def natural? (limit : Nat) (text : List Char) : Option Nat :=
  let digits := match text with
    | '+' :: rest => rest
    | _ => text
  (digits? digits).filter (· < limit)

/-- A number below a limit; either sign may precede it, but none is below zero. -/
def integer? (limit : Nat) (text : List Char) : Option Nat :=
  match text with
  | '-' :: rest => (digits? rest).filter (· = 0)
  | _ => natural? limit text

def isExponent (text : List Char) : Bool :=
  match text with
  | '+' :: rest | '-' :: rest => (digits? rest).isSome
  | _ => (digits? text).isSome

/-- A digit on one side of the point at least. -/
def isMantissa (text : List Char) : Bool :=
  let whole := text.takeWhile Char.isDigit
  match text.drop whole.length with
  | [] => whole ≠ []
  | c :: fraction => c = '.' && fraction.all Char.isDigit && (whole ≠ [] || fraction ≠ [])

def isDecimal (text : List Char) : Bool :=
  let mantissa := text.takeWhile fun c => c ≠ 'e' && c ≠ 'E'
  isMantissa mantissa &&
    match text.drop mantissa.length with
    | [] => true
    | _ :: exponent => isExponent exponent

/-- A number without its sign, or the name of one in letters of either case. -/
def unsignedBinary64? (text : List Char) : Option Binary64 :=
  let name := text.map Char.toLower
  if name = "inf".toList ∨ name = "infinity".toList then some .infinity
  else if name = "nan".toList then some ⟨0x7FF8000000000000⟩
  else if isDecimal text then some (Digits.toBinary64 text)
  else none

def binary64? (text : List Char) : Option Binary64 :=
  match text with
  | '-' :: rest => (unsignedBinary64? rest).map Binary64.negate
  | '+' :: rest => unsignedBinary64? rest
  | _ => unsignedBinary64? text

example : isDecimal "5.e-1".toList ∧ isDecimal ".5".toList := by decide +kernel

example : ¬ isDecimal ".".toList ∧ ¬ isDecimal "1e".toList := by decide +kernel

end PyVerify.Command
