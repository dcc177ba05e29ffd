import PyVerify.Number.Digits
import PyVerify.Text.Reader

/-!
# Reading JSON texts

Readers for the parts of a JSON text. `skip` takes any value and gives none; it does not look at
what the escapes in strings stand for.
-/

namespace PyVerify.Json.Reader

open Text (Reader)

variable {α σ : Type}

def blanks : Reader Unit :=
  Text.Reader.drop fun c => c = ' ' ∨ c = '\n' ∨ c = '\t' ∨ c = '\r'

/-- The next character after blanks, which stays. -/
def peek : Reader Char := do
  blanks
  Text.Reader.peek

/-- Takes the next character after blanks. -/
def next : Reader Char := do
  blanks
  Text.Reader.next

def sign (c : Char) : Reader Unit := do
  blanks
  Text.Reader.char c

def word (w : String) : Reader Unit := do
  blanks
  Text.Reader.word w

/-! ## Strings -/

def hex? (a b c d : Char) : Option Nat :=
  if [a, b, c, d].all (Digits.isOf 16) then some (Digits.toNat 16 [a, b, c, d]) else none

/-- What a letter behind a backslash stands for. -/
def escape? : Char → Option Char
  | '"' => some '"'
  | '\\' => some '\\'
  | '/' => some '/'
  | 'b' => some '\x08'
  | 'f' => some '\x0c'
  | 'n' => some '\n'
  | 'r' => some '\r'
  | 't' => some '\t'
  | _ => none

def withChar (c : Char) (tail : Option (List Char × List Char)) : Option (List Char × List Char) :=
  tail.map fun (s, rest) => (c :: s, rest)

/-- A string behind its opening quote, and the rest. Half a surrogate pair is no character. -/
def stringTail : List Char → Option (List Char × List Char)
  | '"' :: rest => some ([], rest)
  | '\\' :: 'u' :: a :: b :: c :: d :: rest =>
    match hex? a b c d with
    | none => none
    | some n =>
      if 0xD800 ≤ n ∧ n < 0xDC00 then
        match rest with
        | '\\' :: 'u' :: e :: f :: g :: h :: rest =>
          match hex? e f g h with
          | none => none
          | some m =>
            if 0xDC00 ≤ m ∧ m < 0xE000 then
              withChar (.ofNat (0x10000 + (n - 0xD800) * 0x400 + (m - 0xDC00))) (stringTail rest)
            else none
        | _ => none
      else if 0xDC00 ≤ n ∧ n < 0xE000 then none
      else withChar (.ofNat n) (stringTail rest)
  | '\\' :: c :: rest =>
    match escape? c with
    | some c => withChar c (stringTail rest)
    | none => none
  | c :: rest => if c.toNat < 0x20 then none else withChar c (stringTail rest)
  | [] => none

def string : Reader String := do
  sign '"'
  match stringTail (← get) with
  | some (s, rest) =>
    set rest
    return String.ofList s
  | none => failure

/-- What follows a string behind its opening quote. -/
def afterString? : List Char → Option (List Char)
  | '"' :: rest => some rest
  | '\\' :: 'u' :: a :: b :: c :: d :: rest =>
    if (hex? a b c d).isSome then afterString? rest else none
  | '\\' :: c :: rest => if (escape? c).isSome then afterString? rest else none
  | c :: rest => if c.toNat < 0x20 then none else afterString? rest
  | [] => none

def skipString : Reader Unit := do
  sign '"'
  match afterString? (← get) with
  | some rest => set rest
  | none => failure

/-! ## Sequences -/

/-- Items with commas between them up to the closing sign, at most so many. -/
def items (item : σ → Reader σ) (closing : Char) : Nat → σ → Reader σ
  | 0, _ => failure
  | n + 1, s => do
    let s ← item s
    let c ← next
    if c = ',' then items item closing n s
    else if c = closing then return s
    else failure

/-- Items between two signs, each of which changes a value. -/
def enclosed (opening closing : Char) (item : σ → Reader σ) (s : σ) : Reader σ := do
  sign opening
  if (← peek) = closing then
    sign closing
    return s
  else items item closing (← get).length s

def list (item : Reader α) : Reader (List α) :=
  enclosed '[' ']' (fun xs => do return xs ++ [← item]) []

/-! ## Values that do not matter -/

def someDigits : Reader Unit := do
  match (← get).span Char.isDigit with
  | ([], _) => failure
  | (_, rest) => set rest

/-- Digits that do not start with a zero, or a zero. -/
def integer : Reader Unit := do
  match ← get with
  | '0' :: rest => set rest
  | _ => someDigits

def number : Reader Unit := do
  match ← get with
  | '-' :: rest => set rest
  | _ => pure ()
  integer
  match ← get with
  | '.' :: rest =>
    set rest
    someDigits
  | _ => pure ()
  match ← get with
  | 'e' :: '+' :: rest | 'e' :: '-' :: rest | 'E' :: '+' :: rest | 'E' :: '-' :: rest
  | 'e' :: rest | 'E' :: rest =>
    set rest
    someDigits
  | _ => pure ()

/-- A value with at most so many levels. -/
def skipLevels : Nat → Reader Unit
  | 0 => failure
  | n + 1 => do
    match ← peek with
    | '"' => skipString
    | '[' => enclosed '[' ']' (fun _ => skipLevels n) ()
    | '\x7b' =>
      let member : Reader Unit := do
        skipString
        sign ':'
        skipLevels n
      enclosed '\x7b' '\x7d' (fun _ => member) ()
    | 'n' => word "null"
    | 't' => word "true"
    | 'f' => word "false"
    | _ => number

def skip : Reader Unit := do
  skipLevels ((← get).length + 1)

/-- The value that a whole text stands for. -/
def read? (r : Reader α) (text : List Char) : Option α :=
  Text.Reader.read? (do let a ← r; blanks; return a) text

example : read? string "\"a\\n\\ud83d\\ude00\"".toList = some "a\n😀" := by decide +kernel

example : (read? skip " [1.5e3, \x7b\"a\" : \"\\ud800\"\x7d] ".toList).isSome := by decide +kernel

end PyVerify.Json.Reader
