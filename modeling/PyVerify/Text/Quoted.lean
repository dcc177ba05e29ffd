import PyVerify.Text.Printable

/-!
# Quoted text

A text between double quotes, in which quotes, backslashes and unprintable characters are written as
escapes. Single quotes stay as they are.
-/

namespace PyVerify.Text

/-- The lower-case hexadecimal digits of a number. -/
def hex (n : Nat) : String :=
  String.ofList (Nat.toDigits 16 n)

/-- How a character is written between double quotes. -/
def escapeChar : Char → String
  | '"' => "\\\""
  | '\\' => "\\\\"
  | '\n' => "\\n"
  | '\r' => "\\r"
  | '\t' => "\\t"
  | '\x00' => "\\0"
  | c => if printable c then c.toString else "\\u\x7b" ++ hex c.toNat ++ "\x7d"

def quoted (text : String) : String :=
  "\"" ++ String.join (text.toList.map escapeChar) ++ "\""

end PyVerify.Text
