import PyVerify.Token.Kind
import PyVerify.Tree.Expr

namespace PyVerify

open Token (Kind Keyword Mark)

-- How closely the operators bind, from conditionals at 0 up to what needs no parentheses anywhere at 14. The operands
-- of an operator are written without parentheses if they bind at least as closely as they have to.

namespace BinaryOp

def level : BinaryOp → Nat
  | bitOr                                 => 5
  | bitXor                                => 6
  | bitAnd                                => 7
  | shiftLeft | shiftRight                => 8
  | add | sub                             => 9
  | mul | matMul | div | floorDiv | mod   => 10
  | pow                                   => 12

-- Operators associate to the left. A power associates to the right, and no sign stands to its left.

def leftLevel : BinaryOp → Nat
  | pow => 13
  | op  => op.level

def rightLevel : BinaryOp → Nat
  | pow => 11
  | op  => op.level + 1

def mark : BinaryOp → Mark
  | bitOr       => .bar
  | bitXor      => .caret
  | bitAnd      => .ampersand
  | shiftLeft   => .shiftLeft
  | shiftRight  => .shiftRight
  | add         => .plus
  | sub         => .minus
  | mul         => .star
  | matMul      => .at
  | div         => .slash
  | floorDiv    => .doubleSlash
  | mod         => .percent
  | pow         => .doubleStar

end BinaryOp

namespace UnaryOp

def level : UnaryOp → Nat
  | not => 3
  | _   => 11

def kind : UnaryOp → Kind
  | not     => .keyword .kwNot
  | neg     => .mark .minus
  | pos     => .mark .plus
  | invert  => .mark .tilde

end UnaryOp

namespace BoolOp

def level : BoolOp → Nat
  | or  => 1
  | and => 2

def word : BoolOp → Keyword
  | or  => .kwOr
  | and => .kwAnd

end BoolOp

def CompareOp.kinds : CompareOp → List Kind
  | eq    => [.mark .equal]
  | notEq => [.mark .notEqual]
  | lt    => [.mark .less]
  | le    => [.mark .lessEqual]
  | gt    => [.mark .greater]
  | ge    => [.mark .greaterEqual]
  | is    => [.keyword .kwIs]
  | isNot => [.keyword .kwIs, .keyword .kwNot]
  | isIn  => [.keyword .kwIn]
  | notIn => [.keyword .kwNot, .keyword .kwIn]

-- Lists of tokens with a token between them.
def separated (sep : Kind) : List (List Kind) → List Kind
  | []        => []
  | ks :: kss => ks ++ kss.flatMap (sep :: ·)

theorem separated_map_cons {α : Type} {sep : Kind} {f : α → List Kind} {a : α} {as : List α} :
    separated sep ((a :: as).map f) = f a ++ as.flatMap fun b => sep :: f b :=
  congrArg (f a ++ ·) (List.flatMap_map ..)

theorem mem_separated {sep k : Kind} {kss : List (List Kind)} (h : k ∈ separated sep kss) :
    k = sep ∨ ∃ ks ∈ kss, k ∈ ks := by
  cases kss
  case nil => cases h
  case cons ks kss =>
    simp only [separated, List.mem_append, List.mem_flatMap, List.mem_cons] at h
    grind

namespace Expr

def level : Expr → Nat
  | conditional ..                    => 0
  | bool _ op _                       => op.level
  | unary _ op _                      => op.level
  | compare ..                        => 4
  | binary _ _ op _                   => op.level
  | call .. | attr .. | subscript ..  => 13
  | _                                 => 14

def enclosed (level : Nat) (e : Expr) (ks : List Kind) : List Kind :=
  if e.level < level then .mark .openParen :: (ks ++ [.mark .closeParen]) else ks

mutual

-- The tokens of an expression that is built from names, integers, operators, calls, attributes and subscripts.
def written : Expr → List Kind
  | name _ id                         => [.name id]
  | constant _ (.int value)           => [.int value]
  | constant _ (.wideInt text)        => [.wideInt text]
  | binary _ left op right            =>
    enclosed op.leftLevel left left.written ++ .mark op.mark :: enclosed op.rightLevel right right.written
  | unary _ op operand                => op.kind :: enclosed op.level operand operand.written
  | bool _ op values                  => separated op.word (writtenAll (op.level + 1) values)
  | compare _ left links              => enclosed 5 left left.written ++ writtenLinks links
  | conditional _ test body orelse    =>
    enclosed 1 body body.written ++ .keyword .kwIf :: (enclosed 1 test test.written ++
      .keyword .kwElse :: enclosed 0 orelse orelse.written)
  | call _ func args _                =>
    enclosed 13 func func.written ++ .mark .openParen ::
      (separated Mark.comma (writtenAll 0 args) ++ [.mark .closeParen])
  | attr _ value i                    => enclosed 13 value value.written ++ [.mark .dot, .name i.text]
  | subscript _ value index           =>
    enclosed 13 value value.written ++ .mark .openBracket :: (enclosed 0 index index.written ++ [.mark .closeBracket])
  | _                                 => []

def writtenAll (level : Nat) : List Expr → List (List Kind)
  | []      => []
  | e :: es => enclosed level e e.written :: writtenAll level es

def writtenLinks : List (CompareOp × Expr) → List Kind
  | []                => []
  | (op, e) :: links  => op.kinds ++ (enclosed 5 e e.written ++ writtenLinks links)

end

-- The tokens of an expression as an operand.
def writtenAt (level : Nat) (e : Expr) : List Kind :=
  enclosed level e e.written

theorem writtenAll_eq {level : Nat} {es : List Expr} : writtenAll level es = es.map (writtenAt level) := by
  induction es
  case nil      => rfl
  case cons hi  => exact congrArg _ hi

theorem writtenLinks_eq {links : List (CompareOp × Expr)} :
    writtenLinks links = links.flatMap fun (op, e) => op.kinds ++ writtenAt 5 e := by
  induction links
  case nil => rfl
  case cons link links hi =>
    rw [writtenLinks, hi, List.flatMap_cons, List.append_assoc]
    rfl

section

variable {s : Span} {left right operand test body orelse func value index : Expr}

theorem written_binary {op : BinaryOp} : (binary s left op right).written =
    left.writtenAt op.leftLevel ++ .mark op.mark :: right.writtenAt op.rightLevel :=
  rfl

theorem written_unary {op : UnaryOp} : (unary s op operand).written = op.kind :: operand.writtenAt op.level :=
  rfl

theorem written_bool {op : BoolOp} {values : List Expr} :
    (bool s op values).written = separated op.word (values.map <| writtenAt (op.level + 1)) :=
  congrArg _ writtenAll_eq

theorem written_compare {links : List (CompareOp × Expr)} : (compare s left links).written =
    left.writtenAt 5 ++ links.flatMap fun (op, e) => op.kinds ++ e.writtenAt 5 :=
  congrArg _ writtenLinks_eq

theorem written_conditional : (conditional s test body orelse).written =
    body.writtenAt 1 ++ .keyword .kwIf :: (test.writtenAt 1 ++ .keyword .kwElse :: orelse.writtenAt 0) :=
  rfl

theorem written_call {args : List Expr} {keywords : List (KeywordArg Expr)} : (call s func args keywords).written =
    func.writtenAt 13 ++ .mark .openParen :: (separated Mark.comma (args.map <| writtenAt 0) ++ [.mark .closeParen]) := by
  rw [← writtenAll_eq]
  rfl

theorem written_attr {i : Ident} : (attr s value i).written = value.writtenAt 13 ++ [.mark .dot, .name i.text] :=
  rfl

theorem written_subscript : (subscript s value index).written =
    value.writtenAt 13 ++ .mark .openBracket :: (index.writtenAt 0 ++ [.mark .closeBracket]) :=
  rfl

end

theorem writtenAt_zero {e : Expr} : writtenAt 0 e = e.written := by
  simp [writtenAt, enclosed]

theorem level_le {e : Expr} : e.level ≤ 14 := by
  cases e
  case bool op _ | unary op _ | binary op _ =>
    cases op
    all_goals exact Nat.le_of_ble_eq_true rfl
  all_goals exact Nat.le_of_ble_eq_true rfl

inductive IsFormula : Expr → Prop
  | name                                                      : IsFormula (.name s x)
  | int                                                       : IsFormula (.constant s (.int value))
  | wideInt                                                   : IsFormula (.constant s (.wideInt text))
  | binary (hl : IsFormula left) (hr : IsFormula right)       : IsFormula (.binary s left op right)
  | unary (h : IsFormula operand)                             : IsFormula (.unary s op operand)
  | bool (hn : 2 ≤ values.length) (h : ∀ e ∈ values, IsFormula e) : IsFormula (.bool s op values)
  | compare (hl : IsFormula left) (hn : links ≠ []) (h : ∀ l ∈ links, IsFormula l.snd) : IsFormula (.compare s left links)
  | conditional (ht : IsFormula test) (hb : IsFormula body) (ho : IsFormula orelse) :
    IsFormula (.conditional s test body orelse)
  | call (hf : IsFormula func) (ha : ∀ e ∈ args, IsFormula e) : IsFormula (.call s func args [])
  | attr (h : IsFormula value)                                : IsFormula (.attr s value i)
  | subscript (hv : IsFormula value) (hi : IsFormula index)   : IsFormula (.subscript s value index)

theorem not_mem_writtenAt {level : Nat} {e : Expr} (h : Kind.mark .assign ∉ e.written) :
    Kind.mark .assign ∉ e.writtenAt level := by
  unfold writtenAt enclosed
  split <;> simp [h]

-- No formula has the sign of an assignment in it.
theorem IsFormula.assign_not_mem {e : Expr} (h : IsFormula e) : Kind.mark .assign ∉ e.written := by
  have hs {level : Nat} {sep : Kind} {es : List Expr} (hw : sep ≠ .mark .assign)
      (hi : ∀ e ∈ es, Kind.mark .assign ∉ e.written) : Kind.mark .assign ∉ separated sep (es.map <| writtenAt level) := by
    intro hm
    obtain h | ⟨ks, hk, hm⟩ := mem_separated hm
    case inl => exact hw h.symm
    case inr =>
      obtain ⟨e, he, rfl⟩ := List.mem_map.mp hk
      exact not_mem_writtenAt (hi e he) hm
  induction h
  case name | int | wideInt => simp [written]
  case binary op _ _ hl hr =>
    have ho : Mark.assign ≠ op.mark := by cases op <;> decide
    simp [written_binary, not_mem_writtenAt hl, not_mem_writtenAt hr, ho]
  case unary op _ h =>
    have ho : Kind.mark .assign ≠ op.kind := by cases op <;> decide
    simp [written_unary, not_mem_writtenAt h, ho]
  case bool hi => exact written_bool ▸ hs nofun hi
  case compare hl hi =>
    have ho : ∀ op : CompareOp, Kind.mark .assign ∉ op.kinds := by
      rintro (_ | _) <;> decide
    simp only [written_compare, List.mem_append, List.mem_flatMap, not_or, not_exists, not_and]
    exact ⟨not_mem_writtenAt hl, fun l hm => ⟨ho l.fst, not_mem_writtenAt (hi l hm)⟩⟩
  case conditional ht hb ho =>
    simp [written_conditional, not_mem_writtenAt ht, not_mem_writtenAt hb, not_mem_writtenAt ho]
  case call hf hi =>
    have ha := @hs 0 (.mark .comma) _ nofun hi
    simp [written_call, not_mem_writtenAt hf, ha]
  case attr h => simp [written_attr, not_mem_writtenAt h]
  case subscript hv hi => simp [written_subscript, not_mem_writtenAt hv, not_mem_writtenAt hi]

end Expr
end PyVerify
