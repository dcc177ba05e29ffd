import PyVerify.Number.Binary64

/-!
# Digits

The value of digits in a base, and of decimals with a point and an exponent. Underscores may
separate digits one at a time.
-/

namespace PyVerify.Digits

/-- The value of a hexadecimal digit, and zero for any other character. -/
def value (c : Char) : Nat :=
  if c.isDigit then c.toNat - '0'.toNat
  else if 'a' ≤ c ∧ c ≤ 'f' then c.toNat - 'a'.toNat + 10
  else if 'A' ≤ c ∧ c ≤ 'F' then c.toNat - 'A'.toNat + 10
  else 0

def isOf (base : Nat) (c : Char) : Bool :=
  if base = 16 then c.isDigit || ('a' ≤ c && c ≤ 'f') || ('A' ≤ c && c ≤ 'F')
  else c.isDigit && value c < base

/-- The value of digits, the most significant first. -/
def toNat (base : Nat) (digits : List Char) : Nat :=
  digits.foldl (fun n d => n * base + value d) 0

/-- Underscores stand one at a time between two other characters. -/
def wellSeparated : List Char → Bool
  | [] => false
  | [c] => c != '_'
  | '_' :: _ => false
  | _ :: '_' :: '_' :: _ => false
  | _ :: '_' :: cs => wellSeparated cs
  | _ :: cs => wellSeparated cs

def withoutUnderscores (cs : List Char) : List Char :=
  cs.filter (· ≠ '_')

/-- Reads digits with an optional point and an optional exponent; underscores are ignored. -/
def toBinary64 (text : List Char) : Binary64 :=
  let cs := withoutUnderscores text
  let mantissa := cs.takeWhile fun c => c ≠ 'e' && c ≠ 'E'
  let exponent := cs.drop (mantissa.length + 1)
  let places := (mantissa.dropWhile (· ≠ '.')).length - 1
  let power : Int := match exponent with
    | '-' :: digits => -(toNat 10 digits : Int)
    | '+' :: digits => toNat 10 digits
    | digits => toNat 10 digits
  Binary64.ofDecimal (toNat 10 (mantissa.filter Char.isDigit)) (power - places)

end PyVerify.Digits
