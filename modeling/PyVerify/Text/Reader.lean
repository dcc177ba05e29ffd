/-!
# Readers

A reader takes a value off the front of a text, or fails.
-/

namespace PyVerify.Text

abbrev Reader (α : Type) := StateT (List Char) Option α

namespace Reader

variable {α : Type}

/-- The next character, which stays. -/
def peek : Reader Char := do
  match ← get with
  | c :: _ => return c
  | [] => failure

def next : Reader Char := do
  match ← get with
  | c :: rest =>
    set rest
    return c
  | [] => failure

def char (c : Char) : Reader Unit := do
  if (← next) ≠ c then failure

def word (w : String) : Reader Unit := do
  let text ← get
  if w.toList.isPrefixOf text then set (text.drop w.length) else failure

/-- The text goes on like this. -/
def isAt (w : String) : Reader Bool := do
  return w.toList.isPrefixOf (← get)

/-- Takes the characters up to the first one that is not of a kind. -/
def takeWhile (p : Char → Bool) : Reader (List Char) := do
  let text ← get
  set (text.dropWhile p)
  return text.takeWhile p

def drop (p : Char → Bool) : Reader Unit :=
  modify (List.dropWhile p)

/-- The value of a whole text. -/
def read? (r : Reader α) (text : List Char) : Option α :=
  match r.run text with
  | some (a, []) => some a
  | _ => none

end Reader
end PyVerify.Text
