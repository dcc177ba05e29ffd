import PyVerify.Token.Lexeme

/-!
# Layout

Turns the pieces of a text into tokens: a line break outside brackets ends the logical line, and the
width of the margin of the next one opens or closes blocks. `tokenize` is the whole way from a text
to its tokens.
-/

namespace PyVerify.Token

/-- The column behind a margin: a tab goes to the next multiple of eight, a form feed back to zero. -/
def marginWidth (margin : List Char) : Nat :=
  margin.foldl
    (fun column c => if c = '\t' then (column / 8 + 1) * 8 else if c = '\x0c' then 0 else column + 1) 0

/-- The text behind the last line feed. -/
def lastLine (text : List Char) : List Char :=
  (text.reverse.takeWhile (· ≠ '\n')).reverse

namespace Layout

/-- What the tokens so far leave open. -/
structure State where
  /-- The bytes read so far. -/
  offset : Nat
  /-- The text since the last line break, while it holds no token. -/
  margin : List Char
  /-- Opening brackets without their closing ones. -/
  depth : Nat
  /-- A logical line has begun and not ended. -/
  lineOpen : Bool
  /-- The widths of the open blocks, the innermost first. -/
  widths : List Nat
deriving Repr

def State.initial : State := ⟨0, [], 0, false, []⟩

namespace State

/-- The width of the innermost open block. -/
def width (s : State) : Nat :=
  s.widths.headD 0

/-- The margin's place in the text. -/
def marginSpan (s : State) : Span :=
  .between (s.offset - utf8Length s.margin) s.offset

end State

/--
The tokens that a logical line's margin stands for and the blocks that are open behind it; none if
the margin fits no open block.
-/
def margin? (s : State) : Option (List Token × List Nat) :=
  let column := marginWidth s.margin
  if s.width < column then some ([⟨.indent, s.marginSpan⟩], column :: s.widths)
  else
    let closed := s.widths.takeWhile (column < ·)
    let widths := s.widths.drop closed.length
    if widths.headD 0 = column then some (closed.map fun _ => ⟨.dedent, s.marginSpan⟩, widths)
    else none

/-- The bracket depth behind a token. -/
def depthAfter (depth : Nat) (kind : Kind) : Nat :=
  if kind.opensBracket then depth + 1
  else if kind.closesBracket then depth - 1
  else depth

/-- The tokens that a piece of text adds, and the state behind it. -/
def step (s : State) (lexeme : Lexeme) : Except ReadFailure (List Token × State) :=
  let next := s.offset + utf8Length lexeme.text
  /- Opens the logical line, if none is open. -/
  let opening : Except ReadFailure (List Token × List Nat) :=
    if s.lineOpen then .ok ([], s.widths)
    else
      match margin? s with
      | some opened => .ok opened
      | none => .error (.error ⟨.unmatchedUnindent, .between s.marginSpan.start next⟩)
  match lexeme.piece with
  | .blank =>
    .ok ([], { s with offset := next, margin := lastLine (s.margin ++ lexeme.text) })
  | .lineBreak =>
    if 0 < s.depth then .ok ([], { s with offset := next, margin := [] })
    else
      .ok (if s.lineOpen then [⟨.newline, .between s.offset next⟩] else [],
        { s with offset := next, margin := [], lineOpen := false })
  | .token kind => do
    let (tokens, widths) ← opening
    return (tokens ++ [⟨kind, .between s.offset next⟩],
      ⟨next, [], depthAfter s.depth kind, true, widths⟩)
  | .fault cause => do
    let _ ← opening
    throw (.error ⟨cause, .between s.offset next⟩)
  | .broken => .error .aborted

/-- The tokens at the end of a text: the last line and the open blocks end. -/
def finish (s : State) : List Token :=
  let span := Span.point s.offset
  (if s.lineOpen then [⟨.newline, span⟩] else [])
    ++ s.widths.map (fun _ => ⟨.dedent, span⟩) ++ [⟨.eof, span⟩]

def run (s : State) : List Lexeme → Except ReadFailure (List Token)
  | [] => .ok (finish s)
  | lexeme :: rest => do
    let (tokens, s) ← step s lexeme
    return tokens ++ (← run s rest)

end Layout

/-- The tokens of a source text. -/
def tokenize (text : List Char) : Except ReadFailure (List Token) :=
  Layout.run .initial (Lexeme.scan text)

end PyVerify.Token
