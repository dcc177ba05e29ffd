import PyVerify.Text.Reader
import PyVerify.Toml.Scalar

/-!
# Reading settings files

`Toml.read?` reads a text of keys with values, in tables with headers, and gives the outermost table.
-/

namespace PyVerify.Toml

open Text (Reader)
open Text.Reader

/-! ## Blanks and comments -/

def isSpace (c : Char) : Bool := c = ' ' || c = '\t'

def spaces : Reader Unit := drop isSpace

/-- A character that may stand as it is. -/
def isPlain (c : Char) : Bool :=
  c = '\t' || (0x20 ≤ c.toNat && c.toNat ≠ 0x7F)

/-- The text starts with a line's end. -/
def afterNewline? : List Char → Option (List Char)
  | '\n' :: rest => some rest
  | '\r' :: '\n' :: rest => some rest
  | _ => none

def newline : Reader Unit := do
  match afterNewline? (← get) with
  | some rest => set rest
  | none => failure

def comment : Reader Unit := do
  if ← isAt "#" then drop isPlain

/-- What may stand behind something on its line, with the line's end. -/
def lineEnd : Reader Unit := do
  spaces
  comment
  if (← get) ≠ [] then newline

/-- Blanks, comments and line ends, at most so many. -/
def gap : Nat → Reader Unit
  | 0 => pure ()
  | n + 1 => do
    spaces
    comment
    match afterNewline? (← get) with
    | some rest =>
      set rest
      gap n
    | none => pure ()

def gaps : Reader Unit := do
  gap (← get).length

/-! ## Strings -/

/-- What stands behind a backslash: the character, and the rest. -/
def escape? : List Char → Option (Char × List Char)
  | 'b' :: rest => some ('\x08', rest)
  | 't' :: rest => some ('\t', rest)
  | 'n' :: rest => some ('\n', rest)
  | 'f' :: rest => some ('\x0c', rest)
  | 'r' :: rest => some ('\r', rest)
  | '"' :: rest => some ('"', rest)
  | '\\' :: rest => some ('\\', rest)
  | 'u' :: rest => codePoint 4 rest
  | 'U' :: rest => codePoint 8 rest
  | _ => none
where
  codePoint (n : Nat) (rest : List Char) : Option (Char × List Char) :=
    let digits := rest.take n
    let point := Digits.toNat 16 digits
    if digits.length = n ∧ digits.all (Digits.isOf 16) ∧ point.isValidChar then
      some (Char.ofNat point, rest.drop n)
    else none

def withChar (c : Char) (tail : Option (List Char × List Char)) : Option (List Char × List Char) :=
  tail.map fun (s, rest) => (c :: s, rest)

/-- A string in quotes behind the opening one, and the rest. -/
def quoted : Nat → List Char → Option (List Char × List Char)
  | 0, _ => none
  | n + 1, text =>
    match text with
    | [] => none
    | '"' :: rest => some ([], rest)
    | '\\' :: rest => (escape? rest).bind fun (c, rest) => withChar c (quoted n rest)
    | c :: rest => if isPlain c then withChar c (quoted n rest) else none

/-- The end of a string of several lines: up to two quotes may stand before the closing ones. -/
def closing? (quote : Char) (text : List Char) : Option (List Char × List Char) :=
  let count := min (text.takeWhile (· = quote)).length 5
  if 3 ≤ count then some (List.replicate (count - 3) quote, text.drop count) else none

def dropLines : List Char → List Char
  | [] => []
  | c :: rest => if isSpace c || c = '\n' then dropLines rest else
    match c, rest with
    | '\r', '\n' :: more => dropLines more
    | _, _ => c :: rest

/-- A string of several lines behind its opening; a backslash at a line's end joins lines. -/
def lines (escapes : Bool) (quote : Char) : Nat → List Char → Option (List Char × List Char)
  | 0, _ => none
  | n + 1, text =>
    match closing? quote text with
    | some ended => some ended
    | none =>
      match afterNewline? text with
      | some rest => withChar '\n' (lines escapes quote n rest)
      | none =>
        match text with
        | [] => none
        | c :: rest =>
          if escapes && c = '\\' then
            if (afterNewline? (rest.dropWhile isSpace)).isSome then
              lines escapes quote n (dropLines rest)
            else (escape? rest).bind fun (c, rest) => withChar c (lines escapes quote n rest)
          else if isPlain c then withChar c (lines escapes quote n rest)
          else none

/-- Reads what a function takes off the text. -/
def taking (f : Nat → List Char → Option (List Char × List Char)) : Reader String := do
  let text ← get
  match f (text.length + 1) text with
  | some (s, rest) =>
    set rest
    return String.ofList s
  | none => failure

/-- A string on one line, with either kind of quotes. -/
def shortString : Reader String := do
  if (← next) = '"' then taking quoted
  else
    let s ← takeWhile fun c => isPlain c && c ≠ '\''
    char '\''
    return String.ofList s

/-- A string of several lines; a line's end right behind the opening does not count. -/
def longString : Reader String := do
  let quote ← next
  modify (List.drop 2)
  modify fun text => (afterNewline? text).getD text
  taking (lines (quote = '"') quote)

/-! ## Keys -/

def isKeyChar (c : Char) : Bool :=
  ('a' ≤ c && c ≤ 'z') || ('A' ≤ c && c ≤ 'Z') || c.isDigit || c = '_' || c = '-'

def simpleKey : Reader String := do
  let c ← peek
  if c = '"' || c = '\'' then shortString
  else
    match ← takeWhile isKeyChar with
    | [] => failure
    | name => return String.ofList name

/-- A key with names before it, divided by points; at most so many of them. -/
def keyPath : Nat → Reader (List String × String)
  | 0 => failure
  | n + 1 => do
    spaces
    let key ← simpleKey
    spaces
    if ← isAt "." then
      char '.'
      let (path, last) ← keyPath n
      return (key :: path, last)
    else return ([], key)

def key : Reader (List String × String) := do
  keyPath (← get).length

/-! ## Values -/

def isWordChar (c : Char) : Bool :=
  isKeyChar c || c = '+' || c = '.' || c = ':'

/-- A word; a time may follow a day behind a blank. -/
def word : Reader Value := do
  let first ← takeWhile isWordChar
  let joined ←
    match ← get with
    | ' ' :: c :: _ =>
      if isDay first && c.isDigit then do
        char ' '
        pure (first ++ 'T' :: (← takeWhile isWordChar))
      else pure first
    | _ => pure first
  match scalar? joined with
  | some value => return value
  | none => failure

/-- The items of an array behind its opening bracket, at most so many. -/
def items (item : Reader Value) : Nat → Reader (List Value)
  | 0 => failure
  | n + 1 => do
    gaps
    if ← isAt "]" then
      char ']'
      return []
    else
      let value ← item
      gaps
      if ← isAt "," then
        char ','
        return value :: (← items item n)
      else
        char ']'
        return [value]

/-- The members of a table in braces, of which there is at least one and at most so many. -/
def members (item : Reader Value) : Nat → Members → Reader Members
  | 0, _ => failure
  | n + 1, ms => do
    let (path, name) ← key
    char '='
    spaces
    match addValue path name (← item) .header ms with
    | none => failure
    | some (_, ms) =>
      spaces
      if ← isAt "," then
        char ','
        members item n ms
      else
        char '\x7d'
        return ms

/-- A value with fewer than so many levels. -/
def valueBelow : Nat → Reader Value
  | 0 => failure
  | n + 1 => do
    match ← peek with
    | '"' => if ← isAt "\"\"\"" then .string <$> longString else .string <$> shortString
    | '\'' => if ← isAt "'''" then .string <$> longString else .string <$> shortString
    | '[' =>
      char '['
      .array <$> items (valueBelow n) ((← get).length + 1)
    | '\x7b' =>
      char '\x7b'
      spaces
      if ← isAt "\x7d" then
        char '\x7d'
        return .table .braces []
      else .table .braces <$> members (valueBelow n) ((← get).length + 1) []
    | _ => word

def value : Reader Value := valueBelow 80

/-! ## Files -/

/-- The outermost table, and the header that values belong to. -/
structure Draft where
  root : Members
  header : List String

def apply (d : Draft) (header : List String) (c : Change) : Reader Draft := do
  match c .header d.root with
  | some (_, root) => return ⟨root, header⟩
  | none => failure

/-- One line, or more if a value takes more. -/
def line (d : Draft) : Reader Draft := do
  spaces
  match ← get with
  | [] => return d
  | '#' :: _ | '\n' :: _ | '\r' :: _ =>
    lineEnd
    return d
  | '[' :: '[' :: rest =>
    set rest
    let (path, name) ← key
    Text.Reader.word "]]"
    lineEnd
    apply d (path ++ [name]) (addTables path name)
  | '[' :: rest =>
    set rest
    let (path, name) ← key
    char ']'
    lineEnd
    apply d (path ++ [name]) (addTable path name)
  | _ =>
    let (path, name) ← key
    char '='
    spaces
    let v ← value
    lineEnd
    apply d d.header (change false (addValue path name v) d.header)

/-- At most so many lines. -/
def fileFrom : Nat → Draft → Reader Draft
  | 0, d => return d
  | n + 1, d => do
    if (← get) = [] then return d
    else fileFrom n (← line d)

/-- A file, which may start with a byte order mark. -/
def file : Reader Members := do
  if ← isAt "\uFEFF" then char '\uFEFF'
  return (← fileFrom ((← get).length + 1) ⟨[], []⟩).root

def read? (text : List Char) : Option Members :=
  Text.Reader.read? file text

end PyVerify.Toml
