import PyVerify.Source.SyntaxError
import PyVerify.Token.Numeral
import PyVerify.Token.Quotation

/-!
# Lexemes

A source text cut into its smallest pieces: tokens, line breaks, and the blanks between them. At
each place the longest piece is taken. `Lexeme.scan` stops at the first fault.
-/

namespace PyVerify.Token

open SyntaxError (Cause)

/-- What a piece of source text is. -/
inductive Piece where
  /-- Blanks, a comment, or a line break joined by a backslash. -/
  | blank
  | lineBreak
  | token (kind : Kind)
  | fault (cause : Cause)
  /-- The piece cannot be read to its end. -/
  | broken
deriving DecidableEq, Repr

structure Lexeme where
  piece : Piece
  text : List Char
deriving DecidableEq, Repr

namespace Lexeme

def isBlank (c : Char) : Bool :=
  c == ' ' || c == '\t' || c == '\x0c'

/-- Names are made of ASCII letters, digits and underscores. -/
def isNameChar (c : Char) : Bool :=
  c.isAlphanum || c == '_'

/-- The signs, longer ones first. -/
def signs : List (List Char × Kind) := [
  (['.', '.', '.'], .mark .ellipsis),
  (['/', '/', '='], .augmented .floorDiv),
  (['*', '*', '='], .augmented .pow),
  (['<', '<', '='], .augmented .shiftLeft),
  (['>', '>', '='], .augmented .shiftRight),
  (['-', '>'], .mark .arrow),
  ([':', '='], .mark .walrus),
  (['=', '='], .mark .equal),
  (['!', '='], .mark .notEqual),
  (['<', '='], .mark .lessEqual),
  (['>', '='], .mark .greaterEqual),
  (['*', '*'], .mark .doubleStar),
  (['/', '/'], .mark .doubleSlash),
  (['<', '<'], .mark .shiftLeft),
  (['>', '>'], .mark .shiftRight),
  (['+', '='], .augmented .add),
  (['-', '='], .augmented .sub),
  (['*', '='], .augmented .mul),
  (['@', '='], .augmented .matMul),
  (['/', '='], .augmented .div),
  (['%', '='], .augmented .mod),
  (['|', '='], .augmented .bitOr),
  (['^', '='], .augmented .bitXor),
  (['&', '='], .augmented .bitAnd),
  ([':'], .mark .colon),
  ([';'], .mark .semicolon),
  ([','], .mark .comma),
  (['.'], .mark .dot),
  (['@'], .mark .at),
  (['='], .mark .assign),
  (['<'], .mark .less),
  (['>'], .mark .greater),
  (['+'], .mark .plus),
  (['-'], .mark .minus),
  (['*'], .mark .star),
  (['/'], .mark .slash),
  (['%'], .mark .percent),
  (['&'], .mark .ampersand),
  (['|'], .mark .bar),
  (['^'], .mark .caret),
  (['~'], .mark .tilde),
  (['('], .mark .openParen),
  ([')'], .mark .closeParen),
  (['['], .mark .openBracket),
  ([']'], .mark .closeBracket),
  (['{'], .mark .openBrace),
  (['}'], .mark .closeBrace)]

/-- A name or a reserved word. -/
def word (text : List Char) : Kind :=
  let text := String.ofList text
  match Keyword.ofText? text with
  | some k => .keyword k
  | none => .name text

/--
The literal with these markers at an opening quote and the number of characters it takes from there
on; none if the line ends with the quote.
-/
def literal? (markers : List Char) (quote : Char) (after : List Char) : Option (Piece × Nat) :=
  match Quotation.read quote after with
  | .literal body n => some (.token (Quotation.kind markers body), n + 1)
  | .unclosed 0 => none
  | .unclosed n => some (.fault .unterminatedString, n + 1)
  | .unclosedLong => some (.fault .unterminatedTripleQuoted, after.length + 1)
  | .split => some (.broken, 1)

/-- A name, a reserved word, or a literal with markers. -/
def readWord (text rest : List Char) : Piece × Nat :=
  let plain : Piece × Nat := (.token (word text), text.length)
  match rest with
  | quote :: after =>
    if text.length ≤ 2 && text.all Quotation.isMarker && Quotation.isQuote quote then
      match literal? text quote after with
      | some (piece, n) => (piece, text.length + n)
      | none => plain
    else plain
  | [] => plain

def readNumeral (cs : List Char) : Piece × Nat :=
  let (form, n) := Numeral.measure cs
  match Numeral.kind? form (cs.take n) with
  | some kind => (.token kind, n)
  | none => (.fault .invalidInteger, n)

def readSign (cs : List Char) : Piece × Nat :=
  match signs.find? fun (sign, _) => sign.isPrefixOf cs with
  | some (sign, kind) => (.token kind, sign.length)
  | none => (.fault .unexpectedCharacter, 1)

/-- What the first piece of a text is, and how many characters it takes. -/
def read : List Char → Piece × Nat
  | '\n' :: _ => (.lineBreak, 1)
  | '\r' :: '\n' :: _ => (.lineBreak, 2)
  | '\\' :: '\n' :: _ => (.blank, 2)
  | '\\' :: '\r' :: '\n' :: _ => (.blank, 3)
  | '#' :: cs => (.blank, 1 + (cs.takeWhile fun c => c ≠ '\r' && c ≠ '\n').length)
  | '.' :: c :: cs => if c.isDigit then readNumeral ('.' :: c :: cs) else readSign ('.' :: c :: cs)
  | c :: cs =>
    if isBlank c then (.blank, 1 + (cs.takeWhile isBlank).length)
    else if c.isDigit then readNumeral (c :: cs)
    else if isNameChar c then
      let more := cs.takeWhile isNameChar
      readWord (c :: more) (cs.drop more.length)
    else if Quotation.isQuote c then (literal? [] c cs).getD (.fault .unterminatedString, 1)
    else readSign (c :: cs)
  | [] => (.blank, 0)

/-- No piece is read behind one that is faulty or broken. -/
def isLast : Piece → Bool
  | .fault _ | .broken => true
  | _ => false

/-- The pieces of a text in order, up to the first fault. -/
def scan : List Char → List Lexeme
  | [] => []
  | c :: cs =>
    let (piece, n) := read (c :: cs)
    -- Each piece has at least one character.
    let lexeme : Lexeme := ⟨piece, c :: cs.take (n - 1)⟩
    if isLast piece then [lexeme] else lexeme :: scan (cs.drop (n - 1))
termination_by cs => cs.length
decreasing_by
  simp only [List.length_drop, List.length_cons]
  omega

end Lexeme
end PyVerify.Token
