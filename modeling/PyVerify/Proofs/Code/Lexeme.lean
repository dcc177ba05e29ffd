import PyVerify.Code.Name
import PyVerify.Code.Print

namespace PyVerify.Code

-- The signs that stand in expressions of C. A minus and a plus are also written before an operand.
inductive Mark where
  | infix2 (op : InfixOp)
  | not
  | invert
  | opening
  | closing
  | openBracket
  | closeBracket
  | arrow
  | question
  | colon
  | comma
deriving DecidableEq, Repr

-- A text of C is cut into these.
inductive Token where
  | word (name : String)
  | literal (text : String)
  | type (type : CType)
  | mark (m : Mark)
  -- whatever none of the expressions here has in it
  | stray
deriving DecidableEq, Repr

-- The signs of C, those of more characters first.
def signs : List (List Char × Token) := [
  (['<', '<', '='], .stray),
  (['>', '>', '='], .stray),
  (['.', '.', '.'], .stray),
  (['-', '>'], .mark .arrow),
  (['+', '+'], .stray),
  (['-', '-'], .stray),
  (['<', '<'], .mark (.infix2 .shiftLeft)),
  (['>', '>'], .mark (.infix2 .shiftRight)),
  (['<', '='], .mark (.infix2 .le)),
  (['>', '='], .mark (.infix2 .ge)),
  (['=', '='], .mark (.infix2 .eq)),
  (['!', '='], .mark (.infix2 .notEq)),
  (['&', '&'], .mark (.infix2 .and)),
  (['|', '|'], .mark (.infix2 .or)),
  (['+', '='], .stray),
  (['-', '='], .stray),
  (['*', '='], .stray),
  (['/', '='], .stray),
  (['%', '='], .stray),
  (['&', '='], .stray),
  (['^', '='], .stray),
  (['|', '='], .stray),
  (['/', '/'], .stray),
  (['/', '*'], .stray),
  (['+'], .mark (.infix2 .add)),
  (['-'], .mark (.infix2 .sub)),
  (['*'], .mark (.infix2 .mul)),
  (['/'], .mark (.infix2 .div)),
  (['%'], .mark (.infix2 .mod)),
  (['|'], .mark (.infix2 .bitOr)),
  (['^'], .mark (.infix2 .bitXor)),
  (['&'], .mark (.infix2 .bitAnd)),
  (['<'], .mark (.infix2 .lt)),
  (['>'], .mark (.infix2 .gt)),
  (['!'], .mark .not),
  (['~'], .mark .invert),
  (['('], .mark .opening),
  ([')'], .mark .closing),
  (['['], .mark .openBracket),
  ([']'], .mark .closeBracket),
  (['?'], .mark .question),
  ([':'], .mark .colon),
  ([','], .mark .comma)]

-- The types that have a name of one word.
def namedTypes : List (String × CType) := [
  ("int", .int), ("char", .char), ("short", .short), ("long", .long), ("float", .float),
  ("double", .double), ("_Bool", .bool)]

-- The words that C keeps to itself. Those that Python keeps as well are no names of a source.
def Token.keywords : List String :=
  reserved ++ ["_Alignas", "_Alignof", "_Atomic", "_Bool", "_Complex", "_Generic", "_Imaginary", "_Noreturn",
    "_Static_assert", "_Thread_local", "break", "continue", "else", "for", "if", "inline", "restrict",
    "return", "while"]

-- Letters outside of ASCII are taken for parts of names, too.
def isWordChar (c : Char) : Bool :=
  c.isAlphanum || c == '_' || 128 ≤ c.toNat

def isWord (text : String) : Bool :=
  text.toList.all isWordChar && text.toList.head?.any (!·.isDigit)

def isIdentifier (name : String) : Bool :=
  isWord name && !Token.keywords.contains name

namespace Token

def ofWord (text : String) : Token :=
  match namedTypes.lookup text with
  | some t => .type t
  | none   => if keywords.contains text then .stray else .word text

-- How far a number goes on: over letters, digits and points, and over a sign behind the letter of an exponent.
def numeral : List Char → Nat
  | c :: d :: cs =>
    if c ∈ ['e', 'E', 'p', 'P'] ∧ d ∈ ['+', '-'] then numeral cs + 2
    else if isWordChar c || c == '.' then numeral (d :: cs) + 1
    else 0
  | [c] => if isWordChar c || c == '.' then 1 else 0
  | []  => 0

-- How far a string goes on behind its opening quote, up to the closing one.
def quotation? : List Char → Option Nat
  | '"' :: _       => some 1
  | '\n' :: _      => none
  | '\\' :: _ :: cs => (quotation? cs).map (· + 2)
  | _ :: cs        => (quotation? cs).map (· + 1)
  | []             => none

def ofSign (cs : List Char) : Token × Nat :=
  match signs.find? fun (sign, _) => sign.isPrefixOf cs with
  | some (sign, t) => (t, sign.length)
  | none           => (.stray, 1)

-- The longest token at the beginning of a text, and of how many characters it is.
def read (c : Char) (cs : List Char) : Token × Nat :=
  if c = '"' then
    match quotation? cs with
    | some n => (.literal (String.ofList (c :: cs.take n)), n + 1)
    | none   => (.stray, 1)
  else if c.isDigit then
    (.literal (String.ofList (c :: cs.take (numeral cs))), numeral cs + 1)
  else if isWordChar c then
    let text := c :: cs.takeWhile isWordChar
    (ofWord (String.ofList text), text.length)
  else ofSign (c :: cs)

end Token

def lex : List Char → List Token
  | [] => []
  | c :: cs =>
    if c = ' ' then lex cs
    else
      let (t, n) := Token.read c cs
      t :: lex (cs.drop (n - 1))
termination_by cs => cs.length

-- What stands here does not go on with a word or a number.
def Apart (cs : List Char) : Prop :=
  ∀ c ∈ cs.head?, ¬isWordChar c ∧ c ≠ '.'

variable {c : Char} {cs rest : List Char} {name : String}

@[simp] theorem lex_nil : lex [] = [] := by
  rw [lex]

@[simp] theorem lex_blank : lex (' ' :: cs) = lex cs := by
  rw [lex]
  rfl

theorem lex_of_read {t : Token} {n : Nat} (hc : c ≠ ' ') (h : Token.read c cs = (t, n)) :
    lex (c :: cs) = t :: lex (cs.drop (n - 1)) := by
  rw [lex, if_neg hc, h]

theorem takeWhile_word (h : cs.all isWordChar) (hr : Apart rest) :
    (cs ++ rest).takeWhile isWordChar = cs := by
  rw [List.takeWhile_append_of_pos (List.all_eq_true.mp h)]
  cases rest
  case nil => simp
  case cons c _ => simp [(hr c rfl).left]

theorem lex_ofWord (h : isWord name) (hr : Apart rest) :
    lex (name.toList ++ rest) = .ofWord name :: lex rest := by
  simp only [isWord, Bool.and_eq_true] at h
  obtain ⟨ha, hd⟩ := h
  cases hn : name.toList
  case nil => simp [hn] at hd
  case cons c cs =>
    simp [hn] at ha hd
    have hq : c ≠ '"' := by rintro rfl; simp [isWordChar] at ha
    have hb : c ≠ ' ' := by rintro rfl; simp [isWordChar] at ha
    have ht := takeWhile_word (List.all_eq_true.mpr ha.right) hr
    have hs : String.ofList (c :: cs) = name := by rw [←hn, String.ofList_toList]
    have hread : Token.read c (cs ++ rest) = (.ofWord name, cs.length + 1) := by
      simp [Token.read, hq, hd, ha.left, ht, hs]
    simpa using lex_of_read hb hread

theorem namedTypes_spec : ∀ p ∈ namedTypes, isWord p.fst ∧ Token.keywords.contains p.fst := by
  decide

theorem mem_namedTypes {t : CType} (h : namedTypes.lookup name = some t) : (name, t) ∈ namedTypes := by
  obtain ⟨_, _, hs, _⟩ := List.lookup_eq_some_iff.mp h
  simp [hs]

theorem lex_type {t : CType} (h : namedTypes.lookup name = some t) (hr : Apart rest) :
    lex (name.toList ++ rest) = .type t :: lex rest := by
  rw [lex_ofWord (namedTypes_spec _ (mem_namedTypes h)).left hr, Token.ofWord, h]

theorem isWord_of_isIdentifier (h : isIdentifier name) : isWord name := by
  simp only [isIdentifier, Bool.and_eq_true] at h
  exact h.left

theorem lex_word (h : isIdentifier name) (hr : Apart rest) :
    lex (name.toList ++ rest) = .word name :: lex rest := by
  simp only [isIdentifier, Bool.and_eq_true, Bool.not_eq_true'] at h
  obtain ⟨hw, hk⟩ := h
  rw [lex_ofWord hw hr, Token.ofWord, hk]
  split
  case h_1 hl => cases hk.symm.trans (namedTypes_spec _ <| mem_namedTypes hl).right
  case h_2    => rfl

theorem lex_infix2 {op : InfixOp} : lex (op.text.toList ++ ' ' :: cs) = .mark (.infix2 op) :: lex cs := by
  have hr : ∃ c s, op.text.toList = c :: s ∧ c ≠ ' ' ∧
      Token.read c (s ++ ' ' :: cs) = (.mark (.infix2 op), s.length + 1) := by
    cases op
    all_goals
      simp only [InfixOp.text, String.reduceToList]
      exact ⟨_, _, rfl, by decide, rfl⟩
  obtain ⟨c, s, ht, hc, hr⟩ := hr
  rw [ht]
  simpa using lex_of_read hc hr

@[simp] theorem lex_opening : lex ('(' :: cs) = .mark .opening :: lex cs :=
  lex_of_read (by decide) rfl

@[simp] theorem lex_closing : lex (')' :: cs) = .mark .closing :: lex cs :=
  lex_of_read (by decide) rfl

@[simp] theorem lex_openBracket : lex ('[' :: cs) = .mark .openBracket :: lex cs :=
  lex_of_read (by decide) rfl

@[simp] theorem lex_closeBracket : lex (']' :: cs) = .mark .closeBracket :: lex cs :=
  lex_of_read (by decide) rfl

@[simp] theorem lex_arrow : lex ('-' :: '>' :: cs) = .mark .arrow :: lex cs :=
  lex_of_read (by decide) rfl

@[simp] theorem lex_question : lex ('?' :: cs) = .mark .question :: lex cs :=
  lex_of_read (by decide) rfl

@[simp] theorem lex_colon : lex (':' :: cs) = .mark .colon :: lex cs :=
  lex_of_read (by decide) rfl

@[simp] theorem lex_comma : lex (',' :: cs) = .mark .comma :: lex cs :=
  lex_of_read (by decide) rfl

def SignOp.mark : SignOp → Mark
  | not    => .not
  | neg    => .infix2 .sub
  | pos    => .infix2 .add
  | invert => .invert

-- Behind a sign that is written before its operand, one of these would make a longer sign of it.
def joining : List Char := ['+', '-', '=', '>']

def Opens (cs : List Char) : Prop :=
  ∀ c ∈ cs.head?, c ∉ joining

theorem lex_sign {op : SignOp} (h : Opens cs) : lex (op.text.toList ++ cs) = .mark op.mark :: lex cs := by
  have hr : ∃ c, op.text.toList = [c] ∧ c ≠ ' ' ∧ Token.read c cs = (.mark op.mark, 1) := by
    cases op
    all_goals
      simp only [SignOp.text, String.reduceToList]
      refine ⟨_, rfl, by decide, ?_⟩
      cases cs
      case nil => rfl
      case cons c cs =>
        have hc := h c rfl
        simp only [joining, List.mem_cons, not_or, List.not_mem_nil, @eq_comm _ c] at hc
        simp [Token.read, Token.ofSign, signs, isWordChar, hc, SignOp.mark]
  obtain ⟨c, ht, hc, hr⟩ := hr
  rw [ht]
  simpa using lex_of_read hc hr

end PyVerify.Code
