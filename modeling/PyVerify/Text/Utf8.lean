/-!
# Reading bytes as text

Bytes that are no text are replaced: a started character that breaks off becomes one replacement
character, and so does each byte that cannot start a character.
-/

namespace PyVerify.Text

/-- A started character: how many bytes are left, the range of the next one, and the bits so far. -/
structure Started where
  left : Nat
  low : UInt8
  high : UInt8
  bits : Nat
deriving Repr

def replacement : Char := '\uFFFD'

/-- Reads a byte where a character starts: what it adds to the text, and what it starts. -/
def readFirst (b : UInt8) : List Char × Option Started :=
  if b < 0x80 then ([Char.ofNat b.toNat], none)
  else if 0xC2 ≤ b ∧ b ≤ 0xDF then ([], some ⟨1, 0x80, 0xBF, b.toNat - 0xC0⟩)
  else if 0xE0 ≤ b ∧ b ≤ 0xEF then
    -- No second way to write a character, and no surrogates.
    ([], some ⟨2, if b = 0xE0 then 0xA0 else 0x80, if b = 0xED then 0x9F else 0xBF, b.toNat - 0xE0⟩)
  else if 0xF0 ≤ b ∧ b ≤ 0xF4 then
    ([], some ⟨3, if b = 0xF0 then 0x90 else 0x80, if b = 0xF4 then 0x8F else 0xBF, b.toNat - 0xF0⟩)
  else ([replacement], none)

/-- Reads one byte. -/
def readByte (started : Option Started) (b : UInt8) : List Char × Option Started :=
  match started with
  | none => readFirst b
  | some s =>
    if s.low ≤ b ∧ b ≤ s.high then
      let bits := s.bits * 64 + (b.toNat - 0x80)
      if s.left = 1 then ([Char.ofNat bits], none)
      else ([], some ⟨s.left - 1, 0x80, 0xBF, bits⟩)
    else
      let (cs, next) := readFirst b
      (replacement :: cs, next)

def readBytes (started : Option Started) : List UInt8 → List Char
  | [] => if started.isSome then [replacement] else []
  | b :: bs =>
    let (cs, next) := readByte started b
    cs ++ readBytes next bs

/-- The text that bytes stand for. -/
def decode (bytes : List UInt8) : String :=
  String.ofList (readBytes none bytes)

example : decode [0xE2, 0x82, 0x61] = "\uFFFDa" := by decide +kernel

example : decode [0xF0, 0x9F, 0x98, 0x80, 0xC0] = "😀\uFFFD" := by decide +kernel

end PyVerify.Text
