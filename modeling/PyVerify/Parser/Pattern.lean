import PyVerify.Parser.Expression
import PyVerify.Tree.Pattern

/-!
# Parsing patterns

The patterns of `case` clauses. `closedPattern` parses patterns nested up to a given depth; the
looser forms are built on it.
-/

namespace PyVerify.Parser

open Token (Kind Keyword Mark)

/-- The underscore binds nothing. -/
def captured (name : Ident) : Option Ident :=
  if name.text = "_" then none else some name

def valuePattern (e : Expr) : Pattern :=
  .value e.span e

section Nested

variable (b : Below) (closed : Parser Pattern)

def orPattern : Parser Pattern := do
  let first ← closed
  let more ← many (after Mark.bar closed)
  if more.isEmpty then return first
  else return .or (first.span.join (← previous)) (first :: more)

def asPattern : Parser Pattern := do
  let pattern ← orPattern closed
  match ← after Keyword.kwAs ident with
  | some name =>
    if name.text = "_" then failAt .wildcardTarget name.span
    else return .as (pattern.span.join name.span) pattern name
  | none => return pattern

def maybeStarPattern : Parser Pattern := do
  if ← isAt Mark.star then
    let star ← next
    let name ← ident
    return .star (star.span.join name.span) (captured name)
  else asPattern closed

/-- The pattern of a clause, where a sequence needs no brackets. -/
def openPattern : Parser Pattern := do
  let first ← maybeStarPattern closed
  if ← isAt Mark.comma then
    let more ← commaTail (return (← isAt Mark.colon) || (← isAt Keyword.kwIf))
      (maybeStarPattern closed)
    return .sequence (first.span.join (← previous)) (first :: more)
  else return first

/-- The rest of a sequence in brackets, with the closing one. -/
def patternTail (close : Kind) (start : Span) (first : List Pattern) : Parser Pattern := do
  let more ← commaTail (isAt close) (maybeStarPattern closed)
  let _ ← expect close
  return .sequence (start.join (← previous)) (first ++ more)

def startsNumber : Parser Bool := do
  match ← peek with
  | some (.int _) | some (.wideInt _) | some (.float _) | some (.imaginary _) => return true
  | _ => return false

def complexOp? : Kind → Option BinaryOp
  | .mark .plus => some .add
  | .mark .minus => some .sub
  | _ => none

/-- A number with an optional sign, or a complex number as a sum or difference. -/
def numberPattern : Parser Expr := do
  let start ← here
  let negative ← accept Mark.minus
  if !(← startsNumber) then fail .expectedNumberPattern
  else
    let number ← atom b
    let value := if negative then .unary (start.join number.span) .neg number else number
    match (← peek).bind complexOp? with
    | some op =>
      let _ ← next
      match ← peek with
      | some (.imaginary _) =>
        let imaginary ← atom b
        return .binary (start.join imaginary.span) value op imaginary
      | _ => fail .expectedImaginary
    | none => return value

/-- The parts of a class pattern read so far. -/
structure ClassParts where
  items : List Pattern
  keywords : List (Ident × Pattern)

def classPart (s : ClassParts) : Parser ClassParts := do
  if ← startsKeywordArg then
    let key ← ident
    let _ ← next
    return { s with keywords := s.keywords ++ [(key, ← asPattern closed)] }
  else if s.keywords.isEmpty then return { s with items := s.items ++ [← asPattern closed] }
  else fail .positionalAfterKeyword

/-- A capture, a wildcard, a dotted value or a class pattern. -/
def namePattern : Parser Pattern := do
  let name ← ident
  if (← isAt Mark.dot) || (← isAt Mark.openParen) then
    let attrs ← many (after Mark.dot ident)
    let path := attrs.foldl (fun e attr => .attr (e.span.join attr.span) e attr)
      (Expr.name name.span name.text)
    if ← accept Mark.openParen then
      let parts ← foldItems Mark.closeParen (classPart closed) ⟨[], []⟩
      let _ ← expect Mark.closeParen
      return .class (name.span.join (← previous)) path parts.items parts.keywords
    else return valuePattern path
  else return .capture name.span (captured name)

/-- The parts of a mapping pattern read so far. -/
structure MappingParts where
  entries : List (Expr × Pattern)
  rest : Option Ident

def mappingPart (s : MappingParts) : Parser MappingParts := do
  if ← accept Mark.doubleStar then return { s with rest := some (← ident) }
  else if s.rest.isSome then fail .restNotLast
  else
    match ← closed with
    | .value _ key =>
      let _ ← expect Mark.colon
      return { s with entries := s.entries ++ [(key, ← asPattern closed)] }
    | key => failAt .invalidMappingKey key.span

def mappingPattern : Parser Pattern := do
  let brace ← expect Mark.openBrace
  let parts ← foldItems Mark.closeBrace (mappingPart closed) ⟨[], none⟩
  let _ ← expect Mark.closeBrace
  return .mapping (brace.span.join (← previous)) parts.entries parts.rest

def isStar : Pattern → Bool
  | .star .. => true
  | _ => false

/-- What follows an opening parenthesis: a pattern in parentheses or a sequence. -/
def parenPattern (start : Span) : Parser Pattern := do
  if ← accept Mark.closeParen then return .sequence (start.join (← previous)) []
  else
    let first ← maybeStarPattern closed
    if !isStar first && (← isAt Mark.closeParen) then
      let _ ← next
      return first
    else patternTail closed Mark.closeParen start [first]

/-- What follows an opening bracket. -/
def bracketPattern (start : Span) : Parser Pattern := do
  if ← isAt Mark.closeBracket then patternTail closed Mark.closeBracket start []
  else
    let first ← maybeStarPattern closed
    patternTail closed Mark.closeBracket start [first]

def closedForm : Parser Pattern := do
  let start ← here
  match ← peek with
  | some (.mark .minus) | some (.int _) | some (.wideInt _) | some (.float _)
  | some (.imaginary _) => return valuePattern (← numberPattern b)
  | some (.str _) | some (.bytes _) | some (.keyword .kwNone) | some (.keyword .kwTrue)
  | some (.keyword .kwFalse) => return valuePattern (← atom b)
  | some (.name _) => namePattern closed
  | some (.mark .openParen) =>
    let _ ← next
    parenPattern closed start
  | some (.mark .openBracket) =>
    let _ ← next
    bracketPattern closed start
  | some (.mark .openBrace) => mappingPattern closed
  | _ => fail .expectedPattern

end Nested

/-- Patterns that stand alone, nested less than `depth` deep. -/
def closedPattern (b : Below) : Nat → Parser Pattern
  | 0 => fail .tooDeep
  | depth + 1 => closedForm b (closedPattern b depth)

end PyVerify.Parser
