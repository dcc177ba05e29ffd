import PyVerify.Parser.Pattern
import PyVerify.Token.Layout
import PyVerify.Tree.Stmt

/-!
# Parsing statements

Simple statements stand on a line, compound ones have blocks. The words `match`, `case` and `type`
are names elsewhere: a line begins a match statement only if it reads as one up to its end.
-/

namespace PyVerify.Parser

open Token (Kind Keyword Mark)

/-! ## Imports -/

/-- Names joined by dots, as one name. -/
def dottedName : Parser Ident := do
  let first ← ident
  let more ← many (after Mark.dot ident)
  return more.foldl (fun name part => ⟨name.text ++ "." ++ part.text, name.span.join part.span⟩) first

/-- A name with an optional new name behind `as`. -/
def aliasOf (name : Parser Ident) : Parser Alias := do
  let name ← name
  let rename ← after Keyword.kwAs ident
  return ⟨name.span.join (← previous), name.text, rename⟩

def dotsOf? : Kind → Option Nat
  | .mark .dot => some 1
  | .mark .ellipsis => some 3
  | _ => none

def importedNames : Parser (List Alias) := do
  if ← isAt Mark.star then
    let star ← next
    return [⟨star.span, "*", none⟩]
  else if ← accept Mark.openParen then
    let names ← foldItems Mark.closeParen (fun names => return names ++ [← aliasOf ident]) []
    let _ ← expect Mark.closeParen
    return names
  else
    let first ← aliasOf ident
    return first :: (← commaTail (return false) (aliasOf ident))

def importFrom : Parser (Span → Stmt) := do
  let _ ← expect Keyword.kwFrom
  let groups ← many do
    match (← peek).bind dotsOf? with
    | some n =>
      let _ ← next
      return some n
    | none => return none
  let module ← do
    match ← peek with
    | some (.name _) => pure (some (← dottedName).text)
    | _ => pure none
  let dots := groups.foldl (· + ·) 0
  if dots = 0 && module.isNone then fail .expectedModuleName
  else
    let _ ← expect Keyword.kwImport
    let names ← importedNames
    return fun span => .importFrom span module names dots

def nameList : Parser (List Ident) := do
  let first ← ident
  return first :: (← commaTail (return false) ident)

/-! ## Simple statements -/

section Simple

variable (b : Below)

def exprListOrYield : Parser Expr := do
  if ← isAt Keyword.kwYield then yieldExpr b else exprList b

/-- A type parameter; its bound and its default are read and dropped. -/
def typeParam : Parser Ident := do
  let starred ← accept Mark.star
  if !starred then let _ ← accept Mark.doubleStar
  let name ← ident
  let _ ← after Mark.colon b.test
  let _ ← after Mark.assign b.test
  return name

def typeParams : Parser (List Ident) := do
  if ← accept Mark.openBracket then
    let names ← foldItems Mark.closeBracket (fun names => return names ++ [← typeParam b]) []
    let _ ← expect Mark.closeBracket
    return names
  else return []

def typeAlias : Parser (Span → Stmt) := do
  let _ ← next
  let name ← ident
  let names ← typeParams b
  let _ ← expect Mark.assign
  let value ← b.test
  return fun span => .typeAlias span name names value

/-- The line begins with the word `type` and reads as a type alias. -/
def startsTypeAlias : Parser Bool := do
  let c ← get
  match c.kind?, c.secondKind?, c.thirdKind? with
  | some (.name "type"), some (.name _), some (.mark .assign)
  | some (.name "type"), some (.name _), some (.mark .openBracket) => return true
  | _, _, _ => return false

def augmentedOp? : Kind → Option BinaryOp
  | .augmented op => some op
  | _ => none

/-- The targets of a chain of assignments, and the value behind the last sign. -/
def splitLast (first : Expr) : List Expr → List Expr × Expr
  | [] => ([], first)
  | e :: es =>
    let (targets, value) := splitLast e es
    (first :: targets, value)

/-- An assignment of any kind, or an expression alone. -/
def exprStmt : Parser (Span → Stmt) := do
  let first ← exprListOrYield b
  match (← peek).bind augmentedOp? with
  | some op =>
    let _ ← next
    if first.isPlace then
      let value ← exprListOrYield b
      return fun span => .augAssign span first op value
    else failAt (.notAugmentable first.describe) first.span
  | none =>
    if ← accept Mark.colon then
      checkTarget first
      let annotation ← b.test
      let value ← after Mark.assign (exprListOrYield b)
      return fun span => .annAssign span first annotation value
    else
      let more ← many (after Mark.assign (exprListOrYield b))
      if more.isEmpty then return fun span => .expr span first
      else
        let (targets, value) := splitLast first more
        targets.forM checkTarget
        return fun span => .assign span targets value

def deleteTargets : Expr → List Expr
  | .tuple _ items => items
  | e => [e]

def smallForm : Parser (Span → Stmt) := do
  match ← peek with
  | some (.keyword .kwPass) =>
    let _ ← next
    return .pass
  | some (.keyword .kwBreak) =>
    let _ ← next
    return .break
  | some (.keyword .kwContinue) =>
    let _ ← next
    return .continue
  | some (.keyword .kwReturn) =>
    let _ ← next
    if ← startsExpr then
      let value ← exprList b
      return fun span => .return span (some value)
    else return fun span => .return span none
  | some (.keyword .kwDel) =>
    let _ ← next
    let targets := deleteTargets (← targetList b)
    targets.forM checkTarget
    return fun span => .delete span targets
  | some (.keyword .kwRaise) =>
    let _ ← next
    if ← startsExpr then
      let exc ← b.test
      let cause ← after Keyword.kwFrom b.test
      return fun span => .raise span (some exc) cause
    else return fun span => .raise span none none
  | some (.keyword .kwGlobal) =>
    let _ ← next
    let names ← nameList
    return fun span => .global span names
  | some (.keyword .kwNonlocal) =>
    let _ ← next
    let names ← nameList
    return fun span => .nonlocal span names
  | some (.keyword .kwAssert) =>
    let _ ← next
    let test ← b.test
    let message ← after Mark.comma b.test
    return fun span => .assert span test message
  | some (.keyword .kwImport) =>
    let _ ← next
    let first ← aliasOf dottedName
    let more ← commaTail (return false) (aliasOf dottedName)
    return fun span => .importModules span (first :: more)
  | some (.keyword .kwFrom) => importFrom
  | _ => if ← startsTypeAlias then typeAlias b else exprStmt b

def smallStmt : Parser Stmt := do
  let start ← here
  let form ← smallForm b
  return form (start.join (← previous))

/-- A line ends at its newline, which is taken, or before the end of a block or of the text. -/
def endOfLine : Parser Unit := do
  if ← accept .newline then return
  else if (← isAt .eof) || (← isAt .dedent) then return
  else fail .expectedEndOfLine

/-- The statements on a line, separated by semicolons. -/
def simpleStmts : Parser (List Stmt) := do
  let first ← smallStmt b
  let more ← many do
    if ← accept Mark.semicolon then
      if (← isAt .newline) || (← isAt .eof) then return none else return some (← smallStmt b)
    else return none
  endOfLine
  return first :: more

end Simple

/-! ## Compound statements -/

section Compound

variable (b : Below) (stmt : Parser (List Stmt))

/-- The items of an indented block, with the token that closes it. -/
def blockItems {α : Type} (item : Parser α) : Parser (List α) :=
  many do
    skipNewlines
    if ← accept .dedent then return none
    else if ← isAt .eof then return none
    else return some (← item)

/-- An indented block, or simple statements on the header's line. -/
def suite : Parser (List Stmt) := do
  if ← accept .newline then
    skipNewlines
    if ← accept .indent then return (← blockItems stmt).flatten else fail .expectedBlock
  else simpleStmts b

/-- A colon and a block. -/
def body : Parser (List Stmt) := do
  let _ ← expect Mark.colon
  suite b stmt

/-- The block behind a word, if the word is next. -/
def optionalBody (word : Keyword) : Parser (List Stmt) := do
  return (← after word (body b stmt)).getD []

def functionDef (start : Span) (decorators : List Expr) (isAsync : Bool) : Parser Stmt := do
  let _ ← expect Keyword.kwDef
  let name ← ident
  let _ ← expect Mark.openParen
  let params ← params b Mark.closeParen true
  let _ ← expect Mark.closeParen
  let returns ← after Mark.arrow b.test
  let body ← body b stmt
  return .functionDef (start.join (← previous)) name isAsync decorators params returns body

def classDef (start : Span) (decorators : List Expr) : Parser Stmt := do
  let _ ← expect Keyword.kwClass
  let name ← ident
  let args ← after Mark.openParen do
    let args ← arguments b
    let _ ← expect Mark.closeParen
    return args
  let args := args.getD ⟨[], []⟩
  let body ← body b stmt
  return .classDef (start.join (← previous)) name decorators args.args args.keywords body

def decorator : Parser Expr := do
  let e ← namedTest b
  let _ ← expect .newline
  skipNewlines
  return e

def decorated (start : Span) : Parser Stmt := do
  let decorators ← many (after Mark.at (decorator b))
  let c ← get
  match c.kind? with
  | some (.keyword .kwDef) => functionDef b stmt start decorators false
  | some (.keyword .kwClass) => classDef b stmt start decorators
  | some (.keyword .kwAsync) =>
    if c.secondKind? = some Keyword.kwDef then
      let _ ← next
      functionDef b stmt start decorators true
    else fail .strayDecorators
  | _ => fail .strayDecorators

/-- A branch of a conditional: the span of its word, its condition and its block. -/
def branch : Parser (Span × Expr × List Stmt) := do
  let word ← next
  let test ← namedTest b
  return (word.span, test, ← body b stmt)

/-- A conditional; each `elif` becomes a conditional in the `else` block before it. -/
def ifStmt (start : Span) : Parser Stmt := do
  let _ ← expect Keyword.kwIf
  let test ← namedTest b
  let thenBody ← body b stmt
  let branches ← many do
    if ← isAt Keyword.kwElif then return some (← branch b stmt) else return none
  let orelse ← optionalBody b stmt .kwElse
  let stop ← previous
  let nested := branches.foldr
    (fun (word, test, body) orelse => [Stmt.if (word.join stop) test body orelse]) orelse
  return .if (start.join stop) test thenBody nested

def whileStmt (start : Span) : Parser Stmt := do
  let _ ← expect Keyword.kwWhile
  let test ← namedTest b
  let loopBody ← body b stmt
  let orelse ← optionalBody b stmt .kwElse
  return .while (start.join (← previous)) test loopBody orelse

def forStmt (start : Span) (isAsync : Bool) : Parser Stmt := do
  let _ ← expect Keyword.kwFor
  let target ← targetList b
  checkTarget target
  let _ ← expect Keyword.kwIn
  let iter ← exprList b
  let loopBody ← body b stmt
  let orelse ← optionalBody b stmt .kwElse
  return .for (start.join (← previous)) isAsync target iter loopBody orelse

/-- An `except` clause, and whether it has a star; all clauses of a statement agree in that. -/
def handler (wanted : Option Bool) : Parser (Bool × Handler Stmt) := do
  let word ← next
  let star ← accept Mark.star
  if wanted.getD star ≠ star then failAt .mixedHandlers word.span
  else
    let bare := !star && (← isAt Mark.colon)
    let type ← if bare then pure none else some <$> b.test
    let name ← if bare then pure none else after Keyword.kwAs ident
    let handlerBody ← body b stmt
    return (star, ⟨word.span.join (← previous), type, name, handlerBody⟩)

/-- The `except` clauses, and whether they have a star. -/
def handlers : Parser (Bool × List (Handler Stmt)) := do
  if ← isAt Keyword.kwExcept then
    let (star, first) ← handler b stmt none
    let more ← many do
      if ← isAt Keyword.kwExcept then return some (← handler b stmt (some star)).2 else return none
    return (star, first :: more)
  else return (false, [])

def tryStmt (start : Span) : Parser Stmt := do
  let _ ← expect Keyword.kwTry
  let tryBody ← body b stmt
  let (isStar, handlers) ← handlers b stmt
  let orelse ← optionalBody b stmt .kwElse
  let finalBody ← optionalBody b stmt .kwFinally
  if handlers.isEmpty && finalBody.isEmpty then failAt .noHandlers (start.join (← previous))
  else return .try (start.join (← previous)) isStar tryBody handlers orelse finalBody

def withItem : Parser WithItem := do
  let context ← b.test
  let binding ← after Keyword.kwAs do
    let target ← b.bitOr
    checkTarget target
    return target
  return ⟨context, binding⟩

def withStmt (start : Span) (isAsync : Bool) : Parser Stmt := do
  let _ ← expect Keyword.kwWith
  let first ← withItem b
  let more ← commaTail (return false) (withItem b)
  let withBody ← body b stmt
  return .with (start.join (← previous)) isAsync (first :: more) withBody

def asyncStmt (start : Span) : Parser Stmt := do
  let _ ← expect Keyword.kwAsync
  match ← peek with
  | some (.keyword .kwDef) => functionDef b stmt start [] true
  | some (.keyword .kwFor) => forStmt b stmt start true
  | some (.keyword .kwWith) => withStmt b stmt start true
  | _ => fail .expectedAfterAsync

/-! ## Match statements -/

/-- Runs a test from here and comes back, whatever it finds. -/
def lookAhead (test : Parser Bool) : Parser Bool := fun c =>
  match test c with
  | .ok (found, _) => .ok (found, c)
  | .error _ => .ok (false, c)

/-- The line begins with the word `match` and reads as the header of a match statement. -/
def startsMatch : Parser Bool := do
  if (← peek) = some (.name "match") then
    lookAhead do
      let _ ← next
      if ← startsExpr then
        let _ ← exprList b
        let c ← get
        return c.kind? == some Mark.colon && c.secondKind? == some .newline
      else return false
  else return false

def matchCase : Parser (MatchCase Stmt) := do
  let word ← next
  if word.kind = .name "case" then
    let pattern ← openPattern (closedPattern b ((← get).size + 1))
    let guard ← after Keyword.kwIf (namedTest b)
    let caseBody ← body b stmt
    return ⟨word.span.join (← previous), pattern, guard, caseBody⟩
  else failAt (.expectedCase word.kind) word.span

def matchStmt (start : Span) : Parser Stmt := do
  let _ ← next
  let subject ← exprList b
  let _ ← expect Mark.colon
  let _ ← expect .newline
  skipNewlines
  if ← accept .indent then
    let cases ← blockItems (matchCase b stmt)
    if cases.isEmpty then failAt .noCases start
    else return .match (start.join (← previous)) subject cases
  else fail .expectedCaseBlock

/-! ## Statements and modules -/

/-- A compound statement, or the simple statements of a line. -/
def stmtForm : Parser (List Stmt) := do
  let start ← here
  let one (p : Parser Stmt) : Parser (List Stmt) := return [← p]
  match ← peek with
  | some (.mark .at) => one (decorated b stmt start)
  | some (.keyword .kwDef) => one (functionDef b stmt start [] false)
  | some (.keyword .kwClass) => one (classDef b stmt start [])
  | some (.keyword .kwIf) => one (ifStmt b stmt start)
  | some (.keyword .kwWhile) => one (whileStmt b stmt start)
  | some (.keyword .kwFor) => one (forStmt b stmt start false)
  | some (.keyword .kwTry) => one (tryStmt b stmt start)
  | some (.keyword .kwWith) => one (withStmt b stmt start false)
  | some (.keyword .kwAsync) => one (asyncStmt b stmt start)
  | _ => if ← startsMatch b then one (matchStmt b stmt start) else simpleStmts b

end Compound

/-- Statements nested less than `depth` deep. -/
def stmt (b : Below) : Nat → Parser (List Stmt)
  | 0 => fail .tooDeep
  | depth + 1 => stmtForm b (stmt b depth)

def moduleForm (stmt : Parser (List Stmt)) : Parser Module := do
  let stmts ← many do
    skipNewlines
    match ← peek with
    | none | some .eof => return none
    | some .indent => fail .unexpectedIndent
    | some _ => return some (← stmt)
  return ⟨stmts.flatten⟩

/-- An expression up to the end of the text. -/
def exprForm (b : Below) : Parser Expr := do
  let e ← exprList b
  skipNewlines
  if ← isAt .eof then return e else fail .trailingInput

end PyVerify.Parser

namespace PyVerify

namespace Token

/-- Runs a parser on a token list; nothing in the list nests deeper than the list is long. -/
def parse {α : Type} (tokens : List Token) (p : Below → Nat → Parser α) : Except SyntaxError α :=
  let depth := tokens.length + 1
  (p (Below.ofDepth depth) depth).run' (Cursor.ofTokens tokens)

def parseModule (tokens : List Token) : Except SyntaxError Module :=
  parse tokens fun b depth => Parser.moduleForm (Parser.stmt b depth)

/-- A single expression, without anything behind it being looked at. -/
def parseTest (tokens : List Token) : Except SyntaxError Expr :=
  parse tokens fun b _ => b.test

def parseExpr (tokens : List Token) : Except SyntaxError Expr :=
  parse tokens fun b _ => Parser.exprForm b

end Token

def Module.parse (text : List Char) : Except ReadFailure Module := do
  (Token.parseModule (← Token.tokenize text)).mapError .error

def Expr.parse (text : List Char) : Except ReadFailure Expr := do
  (Token.parseExpr (← Token.tokenize text)).mapError .error

end PyVerify
