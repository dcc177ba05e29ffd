import PyVerify.Source.Span

/-!
# Lines and columns

Where a byte position of a text stands for a reader: lines count from one and end at line feeds,
columns count characters from one.
-/

namespace PyVerify

/-- The number of bytes that the characters take in UTF-8. -/
def utf8Length (cs : List Char) : Nat :=
  cs.foldr (fun c n => c.utf8Size + n) 0

/-- The longest prefix of at most `bytes` bytes, if it has exactly that many. -/
def takeBytes? : Nat → List Char → Option (List Char)
  | 0, _ => some []
  | _ + 1, [] => none
  | bytes + 1, c :: cs =>
    if c.utf8Size ≤ bytes + 1 then (takeBytes? (bytes + 1 - c.utf8Size) cs).map (c :: ·) else none
termination_by _ cs => cs

/-- A place in a text as a reader counts it. -/
structure Position where
  line : Nat
  column : Nat
deriving DecidableEq, Repr

namespace Position

/-- The place just behind the characters `before`. -/
def behind (before : List Char) : Position where
  line := before.count '\n' + 1
  column := (before.reverse.takeWhile (· ≠ '\n')).length + 1

/--
The place of a byte position in a text. A position past the end counts as the end, and so does one
inside a character.
-/
def ofOffset (text : List Char) (offset : Nat) : Position :=
  behind ((takeBytes? (min offset (utf8Length text)) text).getD text)

end Position
end PyVerify
