import PyVerify.Parser.Cursor
import PyVerify.Parser.Target

/-!
# Parsing expressions

One parser per level of precedence, from atoms up to conditionals. A level calls the next tighter
one directly; where the grammar goes back to a looser level, behind at least one token, the call
goes through `Below`. `Below.ofDepth` ties the two together for nesting up to a given depth.
-/

namespace PyVerify

open Token (Kind Keyword Mark)

/-- The expression parsers for what is nested in an expression. -/
structure Below where
  test : Parser Expr
  orTest : Parser Expr
  notTest : Parser Expr
  bitOr : Parser Expr
  factor : Parser Expr

namespace Parser

/-! ## Lists of expressions -/

/-- Comma-separated items; two or more, or a comma at the end, make a tuple. -/
def sequence (item : Parser Expr) : Parser Expr := do
  let first ← item
  if ← isAt Mark.comma then
    let more ← commaTail (return !(← startsExpr)) item
    return .tuple (first.span.join (← previous)) (first :: more)
  else return first

variable (b : Below)

def starred : Parser Expr := do
  let star ← expect Mark.star
  let value ← b.bitOr
  return .starred (star.span.join value.span) value

def namedTest : Parser Expr := do
  let e ← b.test
  if ← isAt Mark.walrus then
    if e.isName then
      let _ ← next
      let value ← b.test
      return .named (e.span.join value.span) e value
    else failAt (.notNameable e.describe) e.span
  else return e

def starOrNamed : Parser Expr := do
  if ← isAt Mark.star then starred b else namedTest b

def exprList : Parser Expr :=
  sequence (starOrNamed b)

/-- The targets of `for`, `del` and comprehensions. -/
def targetList : Parser Expr :=
  sequence do if ← isAt Mark.star then starred b else b.bitOr

/-- Fails unless the expression can be assigned to. -/
def checkTarget (e : Expr) : Parser Unit :=
  match e.unassignable? with
  | some part => failAt (.notAssignable part.describe) part.span
  | none => return

/-! ## Parameters and arguments -/

/-- The parameters read so far; behind a star only keywords follow. -/
structure ParamsSoFar where
  params : List (Param Expr)
  keywordOnly : Bool

def annotation (allowed : Bool) : Parser (Option Expr) :=
  if allowed then after Mark.colon b.test else return none

def param (close : Kind) (annotated : Bool) (s : ParamsSoFar) : Parser ParamsSoFar := do
  let start ← here
  if ← accept Mark.slash then return s
  else if ← accept Mark.doubleStar then
    let name ← ident
    let annotation ← annotation b annotated
    let p := ⟨start.join (← previous), name, .varKeywords, annotation, none⟩
    return { s with params := s.params ++ [p] }
  else if ← accept Mark.star then
    if (← isAt Mark.comma) || (← isAt close) then return { s with keywordOnly := true }
    else
      let name ← ident
      let annotation ← annotation b annotated
      let p := ⟨start.join (← previous), name, .varArgs, annotation, none⟩
      return ⟨s.params ++ [p], true⟩
  else
    let name ← ident
    let annotation ← annotation b annotated
    let defaultValue ← after Mark.assign b.test
    let kind := if s.keywordOnly then .keywordOnly else .positional
    let p := ⟨start.join (← previous), name, kind, annotation, defaultValue⟩
    return { s with params := s.params ++ [p] }

/-- The parameters of a function up to a closing token; those of a lambda have no annotations. -/
def params (close : Kind) (annotated : Bool) : Parser (List (Param Expr)) := do
  return (← foldItems close (param b close annotated) ⟨[], false⟩).params

/-- The `for` parts of a comprehension, as many as there are. -/
def generators : Parser (List (Generator Expr)) :=
  many do
    let isAsync ← isAt Keyword.kwAsync
    if isAsync || (← isAt Keyword.kwFor) then
      if isAsync then let _ ← next
      let _ ← expect Keyword.kwFor
      let target ← targetList b
      checkTarget target
      let _ ← expect Keyword.kwIn
      let iter ← b.orTest
      let conditions ← many (after Keyword.kwIf b.orTest)
      return some ⟨target, iter, conditions, isAsync⟩
    else return none

def startsGenerators : Parser Bool :=
  return (← isAt Keyword.kwFor) || (← isAt Keyword.kwAsync)

structure Arguments where
  args : List Expr
  keywords : List (KeywordArg Expr)

/-- A name with an equals sign behind it is next. -/
def startsKeywordArg : Parser Bool := do
  let c ← get
  match c.kind?, c.secondKind? with
  | some (.name _), some (.mark .assign) => return true
  | _, _ => return false

def argument (s : Arguments) : Parser Arguments := do
  if ← isAt Mark.star then
    let star ← next
    let value ← b.test
    return { s with args := s.args ++ [.starred (star.span.join value.span) value] }
  else if ← isAt Mark.doubleStar then
    let stars ← next
    let value ← b.test
    return { s with keywords := s.keywords ++ [⟨stars.span.join value.span, none, value⟩] }
  else if ← startsKeywordArg then
    let name ← ident
    let _ ← next
    let value ← b.test
    return { s with keywords := s.keywords ++ [⟨name.span.join value.span, some name, value⟩] }
  else
    let arg ← namedTest b
    if ← startsGenerators then
      let gs ← generators b
      return { s with args := s.args ++ [.generator (arg.span.join (← previous)) arg gs] }
    else return { s with args := s.args ++ [arg] }

/-- The arguments of a call up to its closing parenthesis. -/
def arguments : Parser Arguments :=
  foldItems Mark.closeParen (argument b) ⟨[], []⟩

/-! ## Subscripts -/

def optionalTest : Parser (Option Expr) := do
  if ← startsExpr then return some (← b.test) else return none

/-- What follows the lower end of a slice that begins at `start`. -/
def sliceTail (start : Span) (lower : Option Expr) : Parser Expr := do
  let _ ← expect Mark.colon
  let upper ← optionalTest b
  let step := (← after Mark.colon (optionalTest b)).join
  return .slice (start.join (← previous)) lower upper step

def subscriptItem : Parser Expr := do
  let start ← here
  if ← isAt Mark.colon then sliceTail b start none
  else
    let e ← starOrNamed b
    if ← isAt Mark.colon then sliceTail b start (some e) else return e

def subscriptList : Parser Expr := do
  let first ← subscriptItem b
  if ← isAt Mark.comma then
    let more ← commaTail (isAt Mark.closeBracket) (subscriptItem b)
    return .tuple (first.span.join (← previous)) (first :: more)
  else return first

/-! ## Atoms -/

def yieldExpr : Parser Expr := do
  let kw ← expect Keyword.kwYield
  if ← accept Keyword.kwFrom then
    let value ← b.test
    return .yieldFrom (kw.span.join value.span) value
  else if ← startsExpr then
    let value ← exprList b
    return .yield (kw.span.join (← previous)) (some value)
  else return .yield (kw.span.join (← previous)) none

/-- What follows an opening parenthesis. -/
def parenAtom (start : Span) : Parser Expr := do
  if ← isAt Mark.closeParen then
    let close ← next
    return .tuple (start.join close.span) []
  else if ← isAt Keyword.kwYield then
    let value ← yieldExpr b
    let _ ← expect Mark.closeParen
    return value
  else
    let first ← starOrNamed b
    if ← startsGenerators then
      let gs ← generators b
      let close ← expect Mark.closeParen
      return .generator (start.join close.span) first gs
    else if ← isAt Mark.comma then
      let more ← commaTail (isAt Mark.closeParen) (starOrNamed b)
      let close ← expect Mark.closeParen
      return .tuple (start.join close.span) (first :: more)
    else
      let _ ← expect Mark.closeParen
      return first

/-- What follows an opening bracket. -/
def listAtom (start : Span) : Parser Expr := do
  if ← isAt Mark.closeBracket then
    let close ← next
    return .list (start.join close.span) []
  else
    let first ← starOrNamed b
    if ← startsGenerators then
      let gs ← generators b
      let close ← expect Mark.closeBracket
      return .listComp (start.join close.span) first gs
    else
      let more ← commaTail (isAt Mark.closeBracket) (starOrNamed b)
      let close ← expect Mark.closeBracket
      return .list (start.join close.span) (first :: more)

def dictEntry : Parser (DictEntry Expr) := do
  if ← accept Mark.doubleStar then return .unpack (← b.bitOr)
  else
    let key ← b.test
    let _ ← expect Mark.colon
    return .pair key (← b.test)

/-- The entries of a dict display behind the first one. -/
def dictTail (start : Span) (first : DictEntry Expr) : Parser Expr := do
  let more ← commaTail (isAt Mark.closeBrace) (dictEntry b)
  let close ← expect Mark.closeBrace
  return .dict (start.join close.span) (first :: more)

/-- What follows an opening brace: a dict, a set, or a comprehension of either. -/
def braceAtom (start : Span) : Parser Expr := do
  if ← isAt Mark.closeBrace then
    let close ← next
    return .dict (start.join close.span) []
  else if ← accept Mark.doubleStar then dictTail b start (.unpack (← b.bitOr))
  else
    let first ← starOrNamed b
    if ← accept Mark.colon then
      let value ← b.test
      if ← startsGenerators then
        let gs ← generators b
        let close ← expect Mark.closeBrace
        return .dictComp (start.join close.span) first value gs
      else dictTail b start (.pair first value)
    else if ← startsGenerators then
      let gs ← generators b
      let close ← expect Mark.closeBrace
      return .setComp (start.join close.span) first gs
    else
      let more ← commaTail (isAt Mark.closeBrace) (starOrNamed b)
      let close ← expect Mark.closeBrace
      return .set (start.join close.span) (first :: more)

/-- Literals next to each other are one: the bodies and the spans that follow the first. -/
def adjacent (body? : Kind → Option String) : Parser (List (String × Span)) :=
  many do
    match (← peek).bind body? with
    | some body => return some (body, (← next).span)
    | none => return none

def joinLiterals (make : String → Constant) (body : String) (span : Span)
    (more : List (String × Span)) : Expr :=
  .constant (more.foldl (fun s part => s.join part.2) span)
    (make (more.foldl (fun text part => text ++ part.1) body))

def strBody? : Kind → Option String
  | .str body => some body
  | _ => none

def bytesBody? : Kind → Option String
  | .bytes body => some body
  | _ => none

def atom : Parser Expr := do
  let t ← next
  match t.kind with
  | .name id => return .name t.span id
  | .int value => return .constant t.span (.int value)
  | .wideInt text => return .constant t.span (.wideInt text)
  | .float value => return .constant t.span (.float value)
  | .imaginary value => return .constant t.span (.imaginary value)
  | .str body => return joinLiterals .str body t.span (← adjacent strBody?)
  | .bytes body => return joinLiterals .bytes body t.span (← adjacent bytesBody?)
  | .keyword .kwTrue => return .constant t.span (.bool true)
  | .keyword .kwFalse => return .constant t.span (.bool false)
  | .keyword .kwNone => return .constant t.span .none
  | .mark .ellipsis => return .constant t.span .ellipsis
  | .mark .openParen => parenAtom b t.span
  | .mark .openBracket => listAtom b t.span
  | .mark .openBrace => braceAtom b t.span
  | .newline | .eof | .dedent => failAt .lineInsteadOfExpression t.span
  | found => failAt (.expectedExpression found) t.span

/-! ## Levels of precedence -/

/-- A call, a subscript or an attribute behind an expression. -/
inductive Trailer where
  | call (arguments : Arguments) (close : Span)
  | subscript (index : Expr) (close : Span)
  | attr (name : Ident)

def Trailer.apply (e : Expr) : Trailer → Expr
  | call arguments close => .call (e.span.join close) e arguments.args arguments.keywords
  | subscript index close => .subscript (e.span.join close) e index
  | attr name => .attr (e.span.join name.span) e name

def trailer : Parser (Option Trailer) := do
  if ← accept Mark.openParen then
    let args ← arguments b
    return some (.call args (← expect Mark.closeParen).span)
  else if ← accept Mark.openBracket then
    let index ← subscriptList b
    return some (.subscript index (← expect Mark.closeBracket).span)
  else if ← accept Mark.dot then return some (.attr (← ident))
  else return none

def primary : Parser Expr := do
  let e ← atom b
  return (← many (trailer b)).foldl Trailer.apply e

def awaited : Parser Expr := do
  if ← isAt Keyword.kwAwait then
    let kw ← next
    let value ← primary b
    return .await (kw.span.join value.span) value
  else primary b

/-- A power associates to the right and binds tighter than a sign on its left. -/
def power : Parser Expr := do
  let base ← awaited b
  if ← accept Mark.doubleStar then
    let exponent ← b.factor
    return .binary (base.span.join exponent.span) base .pow exponent
  else return base

def signOf? : Kind → Option UnaryOp
  | .mark .minus => some .neg
  | .mark .plus => some .pos
  | .mark .tilde => some .invert
  | _ => none

def factor : Parser Expr := do
  match (← peek).bind signOf? with
  | some op =>
    let t ← next
    let operand ← b.factor
    return .unary (t.span.join operand.span) op operand
  | none => power b

/-- Operands joined by operators of one level, grouped to the left. -/
def binaryLevel (op? : Kind → Option BinaryOp) (operand : Parser Expr) : Parser Expr := do
  let first ← operand
  let more ← many do
    match (← peek).bind op? with
    | some op =>
      let _ ← next
      return some (op, ← operand)
    | none => return none
  return more.foldl (fun left (op, right) => .binary (left.span.join right.span) left op right) first

def termOp? : Kind → Option BinaryOp
  | .mark .star => some .mul
  | .mark .slash => some .div
  | .mark .doubleSlash => some .floorDiv
  | .mark .percent => some .mod
  | .mark .at => some .matMul
  | _ => none

def arithOp? : Kind → Option BinaryOp
  | .mark .plus => some .add
  | .mark .minus => some .sub
  | _ => none

def shiftOp? : Kind → Option BinaryOp
  | .mark .shiftLeft => some .shiftLeft
  | .mark .shiftRight => some .shiftRight
  | _ => none

def bitAndOp? : Kind → Option BinaryOp
  | .mark .ampersand => some .bitAnd
  | _ => none

def bitXorOp? : Kind → Option BinaryOp
  | .mark .caret => some .bitXor
  | _ => none

def bitOrOp? : Kind → Option BinaryOp
  | .mark .bar => some .bitOr
  | _ => none

def term : Parser Expr := binaryLevel termOp? (factor b)

def arith : Parser Expr := binaryLevel arithOp? (term b)

def shift : Parser Expr := binaryLevel shiftOp? (arith b)

def bitAnd : Parser Expr := binaryLevel bitAndOp? (shift b)

def bitXor : Parser Expr := binaryLevel bitXorOp? (bitAnd b)

def bitOr : Parser Expr := binaryLevel bitOrOp? (bitXor b)

/-- Takes a comparison operator, which may be two words. -/
def compareOp : Parser (Option CompareOp) := do
  let c ← get
  let single (op : CompareOp) : Parser (Option CompareOp) := do
    let _ ← next
    return some op
  let double (op : CompareOp) : Parser (Option CompareOp) := do
    let _ ← next
    single op
  match c.kind? with
  | some (.mark .less) => single .lt
  | some (.mark .greater) => single .gt
  | some (.mark .equal) => single .eq
  | some (.mark .greaterEqual) => single .ge
  | some (.mark .lessEqual) => single .le
  | some (.mark .notEqual) => single .notEq
  | some (.keyword .kwIn) => single .isIn
  | some (.keyword .kwNot) =>
    if c.secondKind? = some Keyword.kwIn then double .notIn else return none
  | some (.keyword .kwIs) =>
    if c.secondKind? = some Keyword.kwNot then double .isNot else single .is
  | _ => return none

def comparison : Parser Expr := do
  let left ← bitOr b
  let links ← many do
    match ← compareOp with
    | some op => return some (op, ← bitOr b)
    | none => return none
  if links.isEmpty then return left
  else return .compare (left.span.join (← previous)) left links

def notTest : Parser Expr := do
  if ← isAt Keyword.kwNot then
    let kw ← next
    let operand ← b.notTest
    return .unary (kw.span.join operand.span) .not operand
  else comparison b

/-- Operands joined by one boolean operator. -/
def boolLevel (word : Keyword) (op : BoolOp) (operand : Parser Expr) : Parser Expr := do
  let first ← operand
  let more ← many (after word operand)
  match more.getLast? with
  | some last => return .bool (first.span.join last.span) op (first :: more)
  | none => return first

def andTest : Parser Expr := boolLevel .kwAnd .and (notTest b)

def orTest : Parser Expr := boolLevel .kwOr .or (andTest b)

def lambda : Parser Expr := do
  let kw ← expect Keyword.kwLambda
  let params ← params b Mark.colon false
  let _ ← expect Mark.colon
  let body ← b.test
  return .lambda (kw.span.join body.span) params body

def test : Parser Expr := do
  if ← isAt Keyword.kwLambda then lambda b
  else
    let body ← orTest b
    if ← accept Keyword.kwIf then
      let condition ← orTest b
      let _ ← expect Keyword.kwElse
      let orelse ← b.test
      return .conditional (body.span.join orelse.span) condition body orelse
    else return body

end Parser

namespace Below

/-- The parsers for expressions that are nested less than `depth` deep. -/
def ofDepth : Nat → Below
  | 0 =>
    let tooDeep : Parser Expr := Parser.fail .tooDeep
    ⟨tooDeep, tooDeep, tooDeep, tooDeep, tooDeep⟩
  | depth + 1 =>
    let b := ofDepth depth
    ⟨Parser.test b, Parser.orTest b, Parser.notTest b, Parser.bitOr b, Parser.factor b⟩

end Below
end PyVerify
