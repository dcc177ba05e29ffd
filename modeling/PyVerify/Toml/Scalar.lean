import PyVerify.Number.Digits
import PyVerify.Number.Fixed
import PyVerify.Toml.Value

/-!
# Values in one word

Numbers, dates and the values that have a name. A word is read as a whole.
-/

namespace PyVerify.Toml

/-- Digits that underscores may separate. -/
def areDigits (base : Nat) (text : List Char) : Bool :=
  Digits.wellSeparated text && text.all fun c => Digits.isOf base c || c = '_'

/-- Digits that start with a zero only if that is all. -/
def areLeadingDigits (text : List Char) : Bool :=
  areDigits 10 text && (text.head? != some '0' || text.length = 1)

def unsigned (base : Nat) (text : List Char) : Nat :=
  Digits.toNat base (Digits.withoutUnderscores text)

/-- Integers have 64 bits. -/
def integer? (n : Int) : Option Value :=
  if Int64.minValue.toInt ≤ n ∧ n ≤ Int64.maxValue.toInt then some (.integer n) else none

def isExponent (text : List Char) : Bool :=
  match text with
  | '+' :: digits | '-' :: digits => areDigits 10 digits
  | digits => areDigits 10 digits

/-- A number with a point or an exponent. -/
def isFloat (text : List Char) : Bool :=
  let mantissa := text.takeWhile fun c => c ≠ 'e' && c ≠ 'E'
  let whole := mantissa.takeWhile (· ≠ '.')
  let fraction := mantissa.drop whole.length
  let exponent := text.drop mantissa.length
  areLeadingDigits whole && (fraction ≠ [] || exponent ≠ []) &&
    (fraction = [] || areDigits 10 (fraction.drop 1)) &&
    (exponent = [] || isExponent (exponent.drop 1))

/-- A number without its sign. No positive number may be too large for a float. -/
def unsignedNumber? (negative : Bool) (text : List Char) : Option Value :=
  if text = "inf".toList then some (.float (.signed negative .infinity))
  else if text = "nan".toList then some (.float ⟨0x7FF8000000000000⟩)
  else if areLeadingDigits text then
    integer? (if negative then -(unsigned 10 text) else unsigned 10 text)
  else if isFloat text then
    let x := Digits.toBinary64 text
    if x.isInfinite && !negative then none else some (.float (.signed negative x))
  else none

def number? (text : List Char) : Option Value :=
  match text with
  | '+' :: rest => unsignedNumber? false rest
  | '-' :: rest => unsignedNumber? true rest
  | '0' :: 'x' :: rest => if areDigits 16 rest then integer? (unsigned 16 rest) else none
  | '0' :: 'o' :: rest => if areDigits 8 rest then integer? (unsigned 8 rest) else none
  | '0' :: 'b' :: rest => if areDigits 2 rest then integer? (unsigned 2 rest) else none
  | text => unsignedNumber? false text

/-! ## Dates -/

/-- The value of digits, all of which are given. -/
def exactly? (digits : List Char) : Option Nat :=
  if digits.all Char.isDigit then some (Digits.toNat 10 digits) else none

def daysOf (year month : Nat) : Nat :=
  if month = 2 then
    if year % 4 = 0 ∧ (year % 100 ≠ 0 ∨ year % 400 = 0) then 29 else 28
  else if month = 4 ∨ month = 6 ∨ month = 9 ∨ month = 11 then 30
  else 31

def isDay (text : List Char) : Bool :=
  match text with
  | [a, b, c, d, '-', e, f, '-', g, h] =>
    match exactly? [a, b, c, d], exactly? [e, f], exactly? [g, h] with
    | some year, some month, some day =>
      1 ≤ month && month ≤ 12 && 1 ≤ day && day ≤ daysOf year month
    | _, _, _ => false
  | _ => false

def isFraction (text : List Char) : Bool :=
  match text with
  | [] => true
  | c :: digits => c = '.' && digits ≠ [] && digits.all Char.isDigit

/-- Hours, minutes, and seconds with an optional fraction. -/
def isTime (text : List Char) : Bool :=
  match text with
  | a :: b :: ':' :: c :: d :: ':' :: e :: f :: fraction =>
    match exactly? [a, b], exactly? [c, d], exactly? [e, f] with
    | some hour, some minute, some second =>
      hour ≤ 23 && minute ≤ 59 && second ≤ 60 && isFraction fraction
    | _, _, _ => false
  | _ => false

def isOffset (text : List Char) : Bool :=
  match text with
  | [c] => c = 'Z' || c = 'z'
  | [sign, a, b, ':', c, d] =>
    match exactly? [a, b], exactly? [c, d] with
    | some hour, some minute => (sign = '+' || sign = '-') && hour ≤ 23 && minute ≤ 59
    | _, _ => false
  | _ => false

/-- A time, with an offset if there is one. -/
def isZonedTime (text : List Char) : Bool :=
  let time := text.takeWhile fun c => c.isDigit || c = ':' || c = '.'
  isTime time && (time.length = text.length || isOffset (text.drop time.length))

/-- A day, a time, or both with a letter between them. -/
def isDate (text : List Char) : Bool :=
  isDay text || isTime text ||
    (isDay (text.take 10) && ((text.drop 10).head? = some 'T' || (text.drop 10).head? = some 't') &&
      isZonedTime (text.drop 11))

/-- The value of a word. -/
def scalar? (text : List Char) : Option Value :=
  if text = "true".toList then some (.bool true)
  else if text = "false".toList then some (.bool false)
  else if isDate text then some .date
  else number? text

example : isDate "1979-05-27T07:32:00.5+01:00".toList := by decide +kernel

example : isDate "2023-02-29".toList = false := by decide +kernel

end PyVerify.Toml
