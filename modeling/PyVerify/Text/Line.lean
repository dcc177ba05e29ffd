/-!
# Lines of a text

A line ends at a line feed, and a carriage return before it belongs to the line's end. A text that
ends with a line feed has no empty last line.
-/

namespace PyVerify.Text

/-- A line's text without its end, which is a line feed. -/
def withoutReturn (line : List Char) : List Char :=
  if line.getLast? = some '\r' then line.dropLast else line

/-- The lines of a text whose current line so far is `line`, read backwards. -/
def linesFrom (line : List Char) : List Char → List (List Char)
  | [] => if line.isEmpty then [] else [line.reverse]
  | '\n' :: cs => withoutReturn line.reverse :: linesFrom [] cs
  | c :: cs => linesFrom (c :: line) cs

def lines (text : List Char) : List (List Char) :=
  linesFrom [] text

/-- Every line with a line feed behind it. -/
def unlines (lines : List (List Char)) : List Char :=
  lines.flatMap (· ++ ['\n'])

example : lines "a\r\nb\n\nc\r".toList = [['a'], ['b'], [], ['c', '\r']] := by decide +kernel

end PyVerify.Text
