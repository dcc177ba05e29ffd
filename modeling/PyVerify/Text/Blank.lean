/-!
# Blank characters

The characters that count as white space at the ends of a text.
-/

namespace PyVerify.Text

/-- The ranges of code points of white space. -/
def blankRanges : List (Nat × Nat) :=
  [(0x09, 0x0D), (0x20, 0x20), (0x85, 0x85), (0xA0, 0xA0), (0x1680, 0x1680), (0x2000, 0x200A),
    (0x2028, 0x2029), (0x202F, 0x202F), (0x205F, 0x205F), (0x3000, 0x3000)]

def isBlank (c : Char) : Bool :=
  blankRanges.any fun (low, high) => low ≤ c.toNat && c.toNat ≤ high

/-- Nothing but white space. -/
def isBlankText (text : List Char) : Bool :=
  text.all isBlank

/-- A text without the white space at its end. -/
def trimEnd (text : List Char) : List Char :=
  (text.reverse.dropWhile isBlank).reverse

theorem isBlank_of_isWhitespace (c : Char) (h : c.isWhitespace) : isBlank c := by
  simp only [Char.isWhitespace, Bool.or_eq_true, decide_eq_true_eq] at h
  rcases h with (((rfl | rfl) | rfl) | rfl) <;> decide

end PyVerify.Text
