import PyVerify.Number.Shortest
import PyVerify.Source.Span
import PyVerify.Text.Quoted
import PyVerify.Tree.Operator

/-!
# Tokens

What a source text consists of for the parser: reserved words, punctuation, literals, names, and
the tokens that mark line ends and indentation. `Kind.label` names a token in messages.
-/

namespace PyVerify.Token

/-- The reserved words. -/
inductive Keyword where
  | kwFalse
  | kwNone
  | kwTrue
  | kwAnd
  | kwAs
  | kwAssert
  | kwAsync
  | kwAwait
  | kwBreak
  | kwClass
  | kwContinue
  | kwDef
  | kwDel
  | kwElif
  | kwElse
  | kwExcept
  | kwFinally
  | kwFor
  | kwFrom
  | kwGlobal
  | kwIf
  | kwImport
  | kwIn
  | kwIs
  | kwLambda
  | kwNonlocal
  | kwNot
  | kwOr
  | kwPass
  | kwRaise
  | kwReturn
  | kwTry
  | kwWhile
  | kwWith
  | kwYield
deriving DecidableEq, Repr

namespace Keyword

/-- How a reserved word is written. -/
def text : Keyword → String
  | kwFalse => "False"
  | kwNone => "None"
  | kwTrue => "True"
  | kwAnd => "and"
  | kwAs => "as"
  | kwAssert => "assert"
  | kwAsync => "async"
  | kwAwait => "await"
  | kwBreak => "break"
  | kwClass => "class"
  | kwContinue => "continue"
  | kwDef => "def"
  | kwDel => "del"
  | kwElif => "elif"
  | kwElse => "else"
  | kwExcept => "except"
  | kwFinally => "finally"
  | kwFor => "for"
  | kwFrom => "from"
  | kwGlobal => "global"
  | kwIf => "if"
  | kwImport => "import"
  | kwIn => "in"
  | kwIs => "is"
  | kwLambda => "lambda"
  | kwNonlocal => "nonlocal"
  | kwNot => "not"
  | kwOr => "or"
  | kwPass => "pass"
  | kwRaise => "raise"
  | kwReturn => "return"
  | kwTry => "try"
  | kwWhile => "while"
  | kwWith => "with"
  | kwYield => "yield"

/-- The word's name in messages. -/
def label : Keyword → String
  | kwFalse => "KwFalse"
  | kwNone => "KwNone"
  | kwTrue => "KwTrue"
  | kwAnd => "KwAnd"
  | kwAs => "KwAs"
  | kwAssert => "KwAssert"
  | kwAsync => "KwAsync"
  | kwAwait => "KwAwait"
  | kwBreak => "KwBreak"
  | kwClass => "KwClass"
  | kwContinue => "KwContinue"
  | kwDef => "KwDef"
  | kwDel => "KwDel"
  | kwElif => "KwElif"
  | kwElse => "KwElse"
  | kwExcept => "KwExcept"
  | kwFinally => "KwFinally"
  | kwFor => "KwFor"
  | kwFrom => "KwFrom"
  | kwGlobal => "KwGlobal"
  | kwIf => "KwIf"
  | kwImport => "KwImport"
  | kwIn => "KwIn"
  | kwIs => "KwIs"
  | kwLambda => "KwLambda"
  | kwNonlocal => "KwNonlocal"
  | kwNot => "KwNot"
  | kwOr => "KwOr"
  | kwPass => "KwPass"
  | kwRaise => "KwRaise"
  | kwReturn => "KwReturn"
  | kwTry => "KwTry"
  | kwWhile => "KwWhile"
  | kwWith => "KwWith"
  | kwYield => "KwYield"

def all : List Keyword :=
  [kwFalse, kwNone, kwTrue, kwAnd, kwAs, kwAssert, kwAsync, kwAwait, kwBreak, kwClass,
    kwContinue, kwDef, kwDel, kwElif, kwElse, kwExcept, kwFinally, kwFor, kwFrom, kwGlobal, kwIf,
    kwImport, kwIn, kwIs, kwLambda, kwNonlocal, kwNot, kwOr, kwPass, kwRaise, kwReturn, kwTry,
    kwWhile, kwWith, kwYield]

def ofText? (text : String) : Option Keyword :=
  all.find? fun k => k.text == text

end Keyword

/-- Punctuation and operator signs. -/
inductive Mark where
  | arrow
  | ellipsis
  | walrus
  | colon
  | semicolon
  | comma
  | dot
  | at
  | assign
  | equal
  | notEqual
  | less
  | greater
  | lessEqual
  | greaterEqual
  | plus
  | minus
  | star
  | doubleStar
  | slash
  | doubleSlash
  | percent
  | shiftLeft
  | shiftRight
  | ampersand
  | bar
  | caret
  | tilde
  | openParen
  | closeParen
  | openBracket
  | closeBracket
  | openBrace
  | closeBrace
deriving DecidableEq, Repr

/-- The mark's name in messages. -/
def Mark.label : Mark → String
  | .arrow => "Arrow"
  | .ellipsis => "Ellipsis"
  | .walrus => "Walrus"
  | .colon => "Colon"
  | .semicolon => "Semi"
  | .comma => "Comma"
  | .dot => "Dot"
  | .at => "At"
  | .assign => "Eq"
  | .equal => "EqEq"
  | .notEqual => "Neq"
  | .less => "Lt"
  | .greater => "Gt"
  | .lessEqual => "Le"
  | .greaterEqual => "Ge"
  | .plus => "Plus"
  | .minus => "Minus"
  | .star => "Star"
  | .doubleStar => "DoubleStar"
  | .slash => "Slash"
  | .doubleSlash => "DoubleSlash"
  | .percent => "Percent"
  | .shiftLeft => "LShift"
  | .shiftRight => "RShift"
  | .ampersand => "Amp"
  | .bar => "Pipe"
  | .caret => "Caret"
  | .tilde => "Tilde"
  | .openParen => "LParen"
  | .closeParen => "RParen"
  | .openBracket => "LBracket"
  | .closeBracket => "RBracket"
  | .openBrace => "LBrace"
  | .closeBrace => "RBrace"

/-- What a token is, with the value it carries. -/
inductive Kind where
  | keyword (word : Keyword)
  | mark (sign : Mark)
  /-- An augmented assignment such as `+=`. -/
  | augmented (op : BinaryOp)
  | newline
  | indent
  | dedent
  | eof
  | name (text : String)
  /-- An integer below `2 ^ 64`. -/
  | int (value : Nat)
  /-- A wider integer, without underscores. -/
  | wideInt (text : String)
  | float (value : Binary64)
  | imaginary (value : Binary64)
  | str (body : String)
  | bytes (body : String)
deriving DecidableEq, Repr

namespace Kind

instance : Coe Keyword Kind := ⟨keyword⟩

instance : Coe Mark Kind := ⟨mark⟩

/-- The token's name in messages, with its value. -/
def label : Kind → String
  | keyword word => word.label
  | mark sign => sign.label
  | augmented op => s!"AugAssign({op.label})"
  | newline => "Newline"
  | indent => "Indent"
  | dedent => "Dedent"
  | eof => "Eof"
  | name text => s!"Name({Text.quoted text})"
  | int value => s!"Int({value})"
  | wideInt text => s!"BigInt({Text.quoted text})"
  | float value => s!"Float({value.render Binary64.messageNotation})"
  | imaginary value => s!"Imaginary({value.render Binary64.messageNotation})"
  | str body => s!"Str({Text.quoted body})"
  | bytes body => s!"Bytes({Text.quoted body})"

def opensBracket : Kind → Bool
  | mark .openParen | mark .openBracket | mark .openBrace => true
  | _ => false

def closesBracket : Kind → Bool
  | mark .closeParen | mark .closeBracket | mark .closeBrace => true
  | _ => false

end Kind
end PyVerify.Token

namespace PyVerify

/-- A token and the stretch of source it was read from. -/
structure Token where
  kind : Token.Kind
  span : Span
deriving DecidableEq, Repr

end PyVerify
