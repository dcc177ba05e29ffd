import PyVerify.Source.SyntaxError
import PyVerify.Tree.Expr

/-!
# Reading tokens

A parser moves a cursor over a token list and fails with the first error it meets. Every primitive
takes at most one token; `many` repeats a parser and is bounded by the number of tokens.
-/

namespace PyVerify

open Token (Kind Keyword Mark)
open SyntaxError (Cause)

/-- A place in a token list. -/
structure Cursor where
  /-- The span of the token before. -/
  previous : Span
  /-- The tokens ahead. -/
  rest : List Token
  /-- The span of the whole list's last token, where errors at its end are reported. -/
  last : Span
  /-- The number of tokens of the whole list, which bounds every repetition. -/
  size : Nat
deriving Repr

namespace Cursor

def ofTokens (tokens : List Token) : Cursor :=
  ⟨.point 0, tokens, (tokens.getLast?.map Token.span).getD (.point 0), tokens.length⟩

def kind? (c : Cursor) : Option Kind :=
  c.rest.head?.map Token.kind

/-- The kind of the token after the next one. -/
def secondKind? (c : Cursor) : Option Kind :=
  c.rest[1]?.map Token.kind

def thirdKind? (c : Cursor) : Option Kind :=
  c.rest[2]?.map Token.kind

/-- The span of the next token, or of the last one at the end. -/
def here (c : Cursor) : Span :=
  match c.rest with
  | t :: _ => t.span
  | [] => c.last

end Cursor

abbrev Parser := StateT Cursor (Except SyntaxError)

namespace Parser

variable {α σ : Type}

def failAt (cause : Cause) (span : Span) : Parser α :=
  throw ⟨cause, span⟩

/-- Fails at the next token. -/
def fail (cause : Cause) : Parser α := do
  failAt cause (← get).here

def peek : Parser (Option Kind) :=
  return (← get).kind?

def here : Parser Span :=
  return (← get).here

def previous : Parser Span :=
  return (← get).previous

def isAt (kind : Kind) : Parser Bool :=
  return (← peek) == some kind

def next : Parser Token := do
  let c ← get
  match c.rest with
  | t :: rest =>
    set { c with previous := t.span, rest }
    return t
  | [] => failAt .endOfInput c.here

/-- Takes the next token if it is of this kind. -/
def accept (kind : Kind) : Parser Bool := do
  if ← isAt kind then
    let _ ← next
    return true
  else return false

def expect (kind : Kind) : Parser Token := do
  let t ← next
  if t.kind = kind then return t else failAt (.expected kind t.kind) t.span

def ident : Parser Ident := do
  let t ← next
  match t.kind with
  | .name text => return ⟨text, t.span⟩
  | found => failAt (.expectedIdentifier found) t.span

/-- Repeats a parser until it gives none, at most `bound` times. -/
def repeatUpTo (step : Parser (Option α)) : Nat → Parser (List α)
  | 0 => fail .tooDeep
  | bound + 1 => do
    match ← step with
    | some a => return a :: (← repeatUpTo step bound)
    | none => return []

/-- Repeats a parser until it gives none; each time but the last it takes a token or more. -/
def many (step : Parser (Option α)) : Parser (List α) := do
  repeatUpTo step ((← get).size + 1)

/-- Runs a parser behind the given token, if that is next. -/
def after (kind : Kind) (p : Parser α) : Parser (Option α) := do
  if ← accept kind then return some (← p) else return none

/-- Items that each follow a comma; a comma before `stop` ends them. -/
def commaTail (stop : Parser Bool) (item : Parser α) : Parser (List α) :=
  many do
    if ← accept Mark.comma then
      if ← stop then return none else return some (← item)
    else return none

/-- Feeds a value through comma-separated items up to a closing token, at most `bound` times. -/
def foldUpTo (close : Kind) (item : σ → Parser σ) : Nat → σ → Parser σ
  | 0, _ => fail .tooDeep
  | bound + 1, s => do
    if ← isAt close then return s
    let s ← item s
    if ← accept Mark.comma then foldUpTo close item bound s else return s

/-- Feeds a value through comma-separated items up to a closing token, which is left. -/
def foldItems (close : Kind) (item : σ → Parser σ) (s : σ) : Parser σ := do
  foldUpTo close item ((← get).size + 1) s

def skipNewlines : Parser Unit := do
  let _ ← many do if ← accept .newline then return some () else return none

/-- The next token can begin an expression. -/
def startsExpr : Parser Bool := do
  match ← peek with
  | some (.name _) | some (.int _) | some (.wideInt _) | some (.float _) | some (.imaginary _)
  | some (.str _) | some (.bytes _)
  | some (.keyword .kwTrue) | some (.keyword .kwFalse) | some (.keyword .kwNone)
  | some (.keyword .kwNot) | some (.keyword .kwLambda) | some (.keyword .kwAwait)
  | some (.mark .ellipsis) | some (.mark .openParen) | some (.mark .openBracket)
  | some (.mark .openBrace) | some (.mark .minus) | some (.mark .plus) | some (.mark .tilde)
  | some (.mark .star) => return true
  | _ => return false

end Parser
end PyVerify
