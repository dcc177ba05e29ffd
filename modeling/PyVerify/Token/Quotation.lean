import PyVerify.Token.Kind

/-!
# String literals

The text between quotes. A backslash keeps the character behind it from ending the literal; the
text is kept as written. Three quotes open a literal that may run over several lines.
-/

namespace PyVerify.Token.Quotation

def isQuote (c : Char) : Bool :=
  c == '"' || c == '\''

/-- The letters that may stand before the opening quote, at most two of them. -/
def isMarker (c : Char) : Bool :=
  "rRbBuUfF".toList.contains c

/--
The characters of a literal on one line: how many there are, and whether a closing quote follows.
-/
def lineBody (quote : Char) : List Char → Nat × Bool
  | [] => (0, false)
  | c :: cs =>
    if c = quote then (0, true)
    else if c = '\\' then
      match cs with
      | [] => (0, false)
      | d :: ds =>
        if d = '\n' then (0, false)
        else
          let (n, closed) := lineBody quote ds
          (n + 2, closed)
    else if c = '\r' ∨ c = '\n' then (0, false)
    else
      let (n, closed) := lineBody quote cs
      (n + 1, closed)

/-- What follows three opening quotes. -/
inductive LongBody where
  /-- So many characters, then three closing quotes. -/
  | closed (length : Nat)
  | unclosed
  /-- The search for the closing quotes goes byte by byte and met a character of several bytes. -/
  | split
deriving DecidableEq, Repr

def LongBody.extend (n : Nat) : LongBody → LongBody
  | closed length => closed (length + n)
  | b => b

def longBody (quote : Char) : List Char → LongBody
  | [] => .unclosed
  | c :: cs =>
    if 128 ≤ c.toNat then .split
    else if c = '\\' then
      match cs with
      | [] => .unclosed
      | d :: ds => if 128 ≤ d.toNat then .split else (longBody quote ds).extend 2
    else if [quote, quote, quote].isPrefixOf (c :: cs) then .closed 0
    else (longBody quote cs).extend 1

/-- How a literal reads from its opening quote on. -/
inductive Reading where
  /-- A literal of this text, which takes so many characters behind the opening quote. -/
  | literal (body : List Char) (length : Nat)
  /-- No closing quote on the line; so many characters stand before its end. -/
  | unclosed (length : Nat)
  /-- No three closing quotes in the text. -/
  | unclosedLong
  | split
deriving DecidableEq, Repr

/-- Reads what follows the opening quote. -/
def read (quote : Char) (after : List Char) : Reading :=
  if [quote, quote].isPrefixOf after then
    let text := after.drop 2
    match longBody quote text with
    | .closed n => .literal (text.take n) (n + 5)
    | .unclosed => .unclosedLong
    | .split => .split
  else
    match lineBody quote after with
    | (n, true) => .literal (after.take n) (n + 1)
    | (n, false) => .unclosed n

/-- The token of a literal: bytes if one of its markers says so. -/
def kind (markers body : List Char) : Kind :=
  if markers.any fun c => c == 'b' || c == 'B' then .bytes (String.ofList body)
  else .str (String.ofList body)

end PyVerify.Token.Quotation
