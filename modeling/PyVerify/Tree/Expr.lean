import PyVerify.Number.Binary64
import PyVerify.Source.Span
import PyVerify.Tree.Operator

/-!
# Expressions

The tree of an expression. Every node carries the span of source text it was read from.
`Expr.children` lists the direct parts of a node; whatever holds anywhere in a tree is said through
it. `Expr.leftmost` follows the first part down to a leaf.
-/

namespace PyVerify

/-- A name as it stands in the source. -/
structure Ident where
  text : String
  span : Span
deriving DecidableEq, Repr

inductive Constant where
  /-- An integer below `2 ^ 64`. -/
  | int (value : Nat)
  /-- A wider integer, as written but without underscores. -/
  | wideInt (text : String)
  | float (value : Binary64)
  /-- The imaginary part of a literal such as `2j`. -/
  | imaginary (value : Binary64)
  /-- A string literal's text between the quotes, escapes as written. -/
  | str (body : String)
  | bytes (body : String)
  | bool (value : Bool)
  | none
  | ellipsis
deriving DecidableEq, Repr

inductive ParamKind where
  | positional
  | varArgs
  | keywordOnly
  | varKeywords
deriving DecidableEq, Repr

/-- A parameter of a function; `ε` are its expressions. -/
structure Param (ε : Type) where
  span : Span
  name : Ident
  kind : ParamKind
  annotation : Option ε
  defaultValue : Option ε
deriving Repr

/-- An argument passed by keyword; without a name it is a mapping unpacked by `**`. -/
structure KeywordArg (ε : Type) where
  span : Span
  name : Option Ident
  value : ε
deriving Repr

/-- One `for … in … if …` part of a comprehension. -/
structure Generator (ε : Type) where
  target : ε
  iter : ε
  conditions : List ε
  isAsync : Bool
deriving Repr

/-- An entry of a dict display: a key with its value, or a mapping unpacked by `**`. -/
inductive DictEntry (ε : Type) where
  | pair (key value : ε)
  | unpack (mapping : ε)
deriving Repr

inductive Expr where
  | name (span : Span) (id : String)
  | constant (span : Span) (value : Constant)
  | binary (span : Span) (left : Expr) (op : BinaryOp) (right : Expr)
  | unary (span : Span) (op : UnaryOp) (operand : Expr)
  | bool (span : Span) (op : BoolOp) (values : List Expr)
  /-- A chain such as `a < b <= c`: each link compares with the operand before it. -/
  | compare (span : Span) (left : Expr) (links : List (CompareOp × Expr))
  | call (span : Span) (func : Expr) (args : List Expr) (keywords : List (KeywordArg Expr))
  | attr (span : Span) (value : Expr) (name : Ident)
  | subscript (span : Span) (value : Expr) (index : Expr)
  | slice (span : Span) (lower upper step : Option Expr)
  | starred (span : Span) (value : Expr)
  | tuple (span : Span) (items : List Expr)
  | list (span : Span) (items : List Expr)
  | set (span : Span) (items : List Expr)
  | dict (span : Span) (entries : List (DictEntry Expr))
  | conditional (span : Span) (test body orelse : Expr)
  | lambda (span : Span) (params : List (Param Expr)) (body : Expr)
  | listComp (span : Span) (item : Expr) (generators : List (Generator Expr))
  | setComp (span : Span) (item : Expr) (generators : List (Generator Expr))
  | dictComp (span : Span) (key value : Expr) (generators : List (Generator Expr))
  | generator (span : Span) (item : Expr) (generators : List (Generator Expr))
  | named (span : Span) (target value : Expr)
  | await (span : Span) (value : Expr)
  | yield (span : Span) (value : Option Expr)
  | yieldFrom (span : Span) (value : Expr)
deriving Repr

def Param.exprs {ε : Type} (p : Param ε) : List ε :=
  p.annotation.toList ++ p.defaultValue.toList

/-- The plain positional parameters. -/
def Param.positionals {ε : Type} (params : List (Param ε)) : List (Param ε) :=
  params.filter (·.kind = .positional)

def Generator.exprs {ε : Type} (g : Generator ε) : List ε :=
  g.target :: g.iter :: g.conditions

def DictEntry.exprs {ε : Type} : DictEntry ε → List ε
  | pair key value => [key, value]
  | unpack mapping => [mapping]

namespace Expr

def span : Expr → Span
  | name s .. | constant s .. | binary s .. | unary s .. | bool s .. | compare s .. | call s ..
  | attr s .. | subscript s .. | slice s .. | starred s .. | tuple s .. | list s .. | set s ..
  | dict s .. | conditional s .. | lambda s .. | listComp s .. | setComp s .. | dictComp s ..
  | generator s .. | named s .. | await s .. | yield s .. | yieldFrom s .. => s

/-- What kind of expression this is, in words. -/
def describe : Expr → String
  | name .. => "name"
  | constant .. => "constant"
  | binary .. => "binary operation"
  | unary .. => "unary operation"
  | bool .. => "boolean operation"
  | compare .. => "comparison"
  | call .. => "call"
  | attr .. => "attribute access"
  | subscript .. => "subscript"
  | slice .. => "slice"
  | starred .. => "starred expression"
  | tuple .. => "tuple"
  | list .. => "list"
  | set .. => "set"
  | dict .. => "dict"
  | conditional .. => "conditional expression"
  | lambda .. => "lambda"
  | listComp .. => "list comprehension"
  | setComp .. => "set comprehension"
  | dictComp .. => "dict comprehension"
  | generator .. => "generator expression"
  | named .. => "assignment expression"
  | await .. => "await"
  | yield .. => "yield"
  | yieldFrom .. => "yield from"

/-- The expressions directly below a node. -/
def children : Expr → List Expr
  | name .. | constant .. => []
  | binary _ left _ right => [left, right]
  | unary _ _ operand => [operand]
  | bool _ _ values => values
  | compare _ left links => left :: links.map Prod.snd
  | call _ func args keywords => func :: args ++ keywords.map KeywordArg.value
  | attr _ value _ => [value]
  | subscript _ value index => [value, index]
  | slice _ lower upper step => lower.toList ++ upper.toList ++ step.toList
  | starred _ value => [value]
  | tuple _ items | list _ items | set _ items => items
  | dict _ entries => entries.flatMap DictEntry.exprs
  | conditional _ test body orelse => [test, body, orelse]
  | lambda _ params body => params.flatMap Param.exprs ++ [body]
  | listComp _ item generators | setComp _ item generators | generator _ item generators =>
    item :: generators.flatMap Generator.exprs
  | dictComp _ key value generators => key :: value :: generators.flatMap Generator.exprs
  | named _ target value => [target, value]
  | await _ value | yieldFrom _ value => [value]
  | yield _ value => value.toList

private theorem sizeOf_lt_of_mem_toList {x : Expr} {o : Option Expr} (h : x ∈ o.toList) :
    sizeOf x < sizeOf o := by
  cases o <;> simp_all

private theorem sizeOf_lt_of_mem_generators {x : Expr} {gs : List (Generator Expr)}
    (h : x ∈ gs.flatMap Generator.exprs) : sizeOf x < sizeOf gs := by
  obtain ⟨g, hg, hx⟩ := List.mem_flatMap.mp h
  have hs := List.sizeOf_lt_of_mem hg
  obtain ⟨target, iter, conditions, isAsync⟩ := g
  simp only [Generator.exprs, List.mem_cons] at hx
  simp only [Generator.mk.sizeOf_spec] at hs
  rcases hx with rfl | rfl | hx
  · omega
  · omega
  · have := List.sizeOf_lt_of_mem hx
    omega

private theorem sizeOf_lt_of_mem_params {x : Expr} {ps : List (Param Expr)}
    (h : x ∈ ps.flatMap Param.exprs) : sizeOf x < sizeOf ps := by
  obtain ⟨p, hp, hx⟩ := List.mem_flatMap.mp h
  have hs := List.sizeOf_lt_of_mem hp
  obtain ⟨span, name, kind, annotation, defaultValue⟩ := p
  simp only [Param.exprs, List.mem_append] at hx
  simp only [Param.mk.sizeOf_spec] at hs
  rcases hx with hx | hx <;> have := sizeOf_lt_of_mem_toList hx <;> omega

private theorem sizeOf_lt_of_mem_entries {x : Expr} {es : List (DictEntry Expr)}
    (h : x ∈ es.flatMap DictEntry.exprs) : sizeOf x < sizeOf es := by
  obtain ⟨e, he, hx⟩ := List.mem_flatMap.mp h
  have hs := List.sizeOf_lt_of_mem he
  cases e with
  | pair key value =>
    simp only [DictEntry.pair.sizeOf_spec] at hs
    simp only [DictEntry.exprs, List.mem_cons, List.not_mem_nil, or_false] at hx
    rcases hx with rfl | rfl <;> omega
  | unpack mapping =>
    simp only [DictEntry.unpack.sizeOf_spec] at hs
    simp only [DictEntry.exprs, List.mem_singleton] at hx
    subst hx
    omega

private theorem sizeOf_lt_of_mem_links {x : Expr} {ls : List (CompareOp × Expr)}
    (h : x ∈ ls.map Prod.snd) : sizeOf x < sizeOf ls := by
  obtain ⟨⟨op, y⟩, hl, rfl⟩ := List.mem_map.mp h
  have hs := List.sizeOf_lt_of_mem hl
  simp only [Prod.mk.sizeOf_spec] at hs
  simp only
  omega

private theorem sizeOf_lt_of_mem_keywords {x : Expr} {ks : List (KeywordArg Expr)}
    (h : x ∈ ks.map KeywordArg.value) : sizeOf x < sizeOf ks := by
  obtain ⟨⟨span, name, y⟩, hk, rfl⟩ := List.mem_map.mp h
  have hs := List.sizeOf_lt_of_mem hk
  simp only [KeywordArg.mk.sizeOf_spec] at hs
  simp only
  omega

set_option linter.unusedSimpArgs false in
/-- Every part of a node is smaller than the node. -/
theorem sizeOf_lt_of_mem_children {x e : Expr} (h : x ∈ e.children) : sizeOf x < sizeOf e := by
  cases e <;> simp only [children, List.mem_cons, List.mem_append, List.not_mem_nil, or_false] at h
  all_goals
    simp only [binary.sizeOf_spec, unary.sizeOf_spec, bool.sizeOf_spec, compare.sizeOf_spec,
      call.sizeOf_spec, attr.sizeOf_spec, subscript.sizeOf_spec, slice.sizeOf_spec,
      starred.sizeOf_spec, tuple.sizeOf_spec, list.sizeOf_spec, set.sizeOf_spec, dict.sizeOf_spec,
      conditional.sizeOf_spec, lambda.sizeOf_spec, listComp.sizeOf_spec, setComp.sizeOf_spec,
      dictComp.sizeOf_spec, generator.sizeOf_spec, named.sizeOf_spec, await.sizeOf_spec,
      yield.sizeOf_spec, yieldFrom.sizeOf_spec]
  case bool | tuple | list | set => have := List.sizeOf_lt_of_mem h; omega
  case compare =>
    rcases h with rfl | h
    · omega
    · have := sizeOf_lt_of_mem_links h
      omega
  case call =>
    rcases h with (rfl | h) | h
    · omega
    · have := List.sizeOf_lt_of_mem h
      omega
    · have := sizeOf_lt_of_mem_keywords h
      omega
  case slice => rcases h with (h | h) | h <;> have := sizeOf_lt_of_mem_toList h <;> omega
  case dict => have := sizeOf_lt_of_mem_entries h; omega
  case lambda =>
    rcases h with h | rfl
    · have := sizeOf_lt_of_mem_params h
      omega
    · omega
  case listComp | setComp | generator =>
    rcases h with rfl | h
    · omega
    · have := sizeOf_lt_of_mem_generators h
      omega
  case dictComp =>
    rcases h with rfl | rfl | h
    · omega
    · omega
    · have := sizeOf_lt_of_mem_generators h
      omega
  case yield => have := sizeOf_lt_of_mem_toList h; omega
  case binary | subscript | named => rcases h with rfl | rfl <;> omega
  case conditional => rcases h with rfl | rfl | rfl <;> omega
  all_goals subst h; omega

/--
The part that a reader descends into first: the operand of an operator, the first item of a
display, the function of a call, the value of an access, the body of a lambda expression, the last
part of a conditional.
-/
def first? : Expr → Option Expr
  | unary _ _ operand => some operand
  | binary _ left _ _ => some left
  | tuple _ items | list _ items | set _ items => items.head?
  | call _ func _ _ => some func
  | attr _ value _ | subscript _ value _ => some value
  | lambda _ _ body => some body
  | conditional _ _ _ orelse => some orelse
  | _ => none

theorem first?_mem_children {x e : Expr} (h : e.first? = some x) : x ∈ e.children := by
  cases e <;> simp_all [first?, children]
  all_goals exact List.mem_of_mem_head? h

/-- Follows first parts down to a node without one: the number of steps, and that node. -/
def leftmost (e : Expr) : Nat × Expr :=
  match h : e.first? with
  | some x =>
    have := sizeOf_lt_of_mem_children (first?_mem_children h)
    let (steps, leaf) := x.leftmost
    (steps + 1, leaf)
  | none => (0, e)
termination_by sizeOf e

end Expr
end PyVerify
