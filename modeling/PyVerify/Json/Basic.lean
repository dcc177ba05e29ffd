import PyVerify.Number.Shortest
import PyVerify.Text.Quoted

/-!
# JSON values

A value keeps the members of an object in order, and a number as it is written. `Json.pretty` lays a
value out over several lines, each level two blanks further in.
-/

namespace PyVerify

inductive Json where
  | null
  | bool (value : Bool)
  | number (text : String)
  | string (value : String)
  | array (items : List Json)
  | object (members : List (String × Json))
deriving Repr

namespace Json

def ofNat (n : Nat) : Json := number (toString n)

def ofInt (n : Int) : Json := number (toString n)

/-- Floats: positional from `10 ^ (-5)` and below `10 ^ 16`, a tie goes to the even digit. -/
def floatNotation : Decimal.Notation := ⟨-5, 16, .toEven⟩

/-- A float; an infinite one, or none at all, has no number. -/
def ofBinary64 (x : Binary64) : Json :=
  if x.isInfinite || x.isNaN then null else number (x.render floatNotation)

def ofOption {α : Type} (f : α → Json) : Option α → Json
  | some a => f a
  | none => null

def strings (values : List String) : Json := array (values.map string)

/-- How a character is written in a string. -/
def escapeChar (c : Char) : String :=
  match c with
  | '"' => "\\\""
  | '\\' => "\\\\"
  | '\x08' => "\\b"
  | '\x0c' => "\\f"
  | '\n' => "\\n"
  | '\r' => "\\r"
  | '\t' => "\\t"
  | c =>
    if c.toNat < 0x20 then
      let digits := Text.hex c.toNat
      "\\u" ++ String.ofList (List.replicate (4 - digits.length) '0') ++ digits
    else c.toString

def quoted (s : String) : String :=
  "\"" ++ String.join (s.toList.map escapeChar) ++ "\""

/-- A new line with this many blanks. -/
def newline (indent : Nat) : String :=
  "\n" ++ String.ofList (List.replicate indent ' ')

/-- Items in brackets, each on a line of its own, or the brackets alone. -/
def block (opening closing : String) (indent : Nat) (items : List String) : String :=
  if items.isEmpty then opening ++ closing
  else
    let line := newline (indent + 2)
    opening ++ line ++ String.intercalate ("," ++ line) items ++ newline indent ++ closing

mutual

/-- The value at a level that is indented so far. -/
def prettyAt (indent : Nat) : Json → String
  | null => "null"
  | bool value => if value then "true" else "false"
  | number text => text
  | string value => quoted value
  | array items => block "[" "]" indent (prettyItems (indent + 2) items)
  | object members => block "\x7b" "\x7d" indent (prettyMembers (indent + 2) members)

def prettyItems (indent : Nat) : List Json → List String
  | [] => []
  | item :: items => prettyAt indent item :: prettyItems indent items

def prettyMembers (indent : Nat) : List (String × Json) → List String
  | [] => []
  | (key, value) :: members =>
    (quoted key ++ ": " ++ prettyAt indent value) :: prettyMembers indent members

end

def pretty (value : Json) : String :=
  prettyAt 0 value

end Json
end PyVerify
