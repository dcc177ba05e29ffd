import PyVerify.Source.Position
import PyVerify.Token.Kind

/-!
# Syntax errors

Why a source text is refused, and where. `SyntaxError.Cause.message` words a cause;
`SyntaxError.position` is where a reader finds it.
-/

namespace PyVerify

namespace SyntaxError

open Token (Kind)

inductive Cause where
  -- in the characters of the text
  | invalidInteger
  | unterminatedString
  | unterminatedTripleQuoted
  | unexpectedCharacter
  | unmatchedUnindent
  -- in the arrangement of the tokens
  | endOfInput
  | expected (wanted found : Kind)
  | expectedIdentifier (found : Kind)
  | expectedExpression (found : Kind)
  | lineInsteadOfExpression
  | expectedEndOfLine
  | trailingInput
  | unexpectedIndent
  | expectedBlock
  | expectedCaseBlock
  | expectedCase (found : Kind)
  | noCases
  | expectedAfterAsync
  | strayDecorators
  | mixedHandlers
  | noHandlers
  | expectedModuleName
  | expectedPattern
  | expectedNumberPattern
  | expectedImaginary
  | positionalAfterKeyword
  | restNotLast
  | invalidMappingKey
  | wildcardTarget
  -- in what an expression is used for
  | notAssignable (what : String)
  | notAugmentable (what : String)
  | notNameable (what : String)
  /-- The nesting is deeper than the token list is long, which no token list reaches. -/
  | tooDeep
deriving DecidableEq, Repr

def Cause.message : Cause → String
  | invalidInteger => "invalid integer literal"
  | unterminatedString => "unterminated string literal"
  | unterminatedTripleQuoted => "unterminated triple-quoted string literal"
  | unexpectedCharacter => "unexpected character"
  | unmatchedUnindent => "unindent does not match any outer indentation level"
  | endOfInput => "unexpected end of input"
  | expected wanted found => s!"expected {wanted.label}, found {found.label}"
  | expectedIdentifier found => s!"expected identifier, found {found.label}"
  | expectedExpression found => s!"expected expression, found {found.label}"
  | lineInsteadOfExpression => "expected expression, found end of line"
  | expectedEndOfLine => "expected end of line"
  | trailingInput => "unexpected trailing input after expression"
  | unexpectedIndent => "unexpected indent"
  | expectedBlock => "expected an indented block"
  | expectedCaseBlock => "expected an indented block of 'case' clauses"
  | expectedCase found => s!"expected 'case', found {found.label}"
  | noCases => "match statement has no 'case' clauses"
  | expectedAfterAsync => "expected 'def', 'for' or 'with' after 'async'"
  | strayDecorators => "decorators must precede a function or class definition"
  | mixedHandlers => "cannot mix 'except' and 'except*' in one try statement"
  | noHandlers => "expected 'except' or 'finally' block"
  | expectedModuleName => "expected module name after 'from'"
  | expectedPattern => "expected a pattern"
  | expectedNumberPattern => "expected a number in pattern"
  | expectedImaginary => "imaginary number required in complex literal"
  | positionalAfterKeyword => "positional patterns follow keyword patterns"
  | restNotLast => "'**' pattern must come last in a mapping"
  | invalidMappingKey => "mapping pattern keys must be literals or dotted names"
  | wildcardTarget => "cannot use '_' as a target"
  | notAssignable what => s!"cannot assign to {what}"
  | notAugmentable what => s!"'{what}' is an illegal expression for augmented assignment"
  | notNameable what => s!"cannot use assignment expression with {what}"
  | tooDeep => "nesting too deep"

end SyntaxError

/-- A text's first fault. -/
structure SyntaxError where
  cause : SyntaxError.Cause
  span : Span
deriving DecidableEq, Repr

namespace SyntaxError

def message (e : SyntaxError) : String :=
  e.cause.message

/-- The line and column at which the error starts. -/
def position (e : SyntaxError) (text : List Char) : Position :=
  Position.ofOffset text e.span.start

end SyntaxError

/-- How reading a text fails. -/
inductive ReadFailure where
  | error (e : SyntaxError)
  /-- Reading broke off without a diagnosis. -/
  | aborted
deriving DecidableEq, Repr

end PyVerify
