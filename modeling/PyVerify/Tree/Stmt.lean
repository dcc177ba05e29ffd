import PyVerify.Tree.Pattern

/-!
# Statements and modules

`Stmt.exprs` lists the expressions that stand directly in a statement and `Stmt.blocks` the blocks
of statements below it, both in source order.
-/

namespace PyVerify

/-- A name made available by an import statement, such as `os.path` or `numpy as np`. -/
structure Alias where
  span : Span
  name : String
  rename : Option Ident
deriving DecidableEq, Repr

/-- The name bound in the importing scope: the new one, or the path's first segment. -/
def Alias.boundName (a : Alias) : String :=
  match a.rename with
  | some i => i.text
  | none => String.ofList (a.name.toList.takeWhile (· ≠ '.'))

structure WithItem where
  context : Expr
  binding : Option Expr
deriving Repr

/-- An `except` clause; `σ` are its statements. -/
structure Handler (σ : Type) where
  span : Span
  type : Option Expr
  name : Option Ident
  body : List σ
deriving Repr

structure MatchCase (σ : Type) where
  span : Span
  pattern : Pattern
  guard : Option Expr
  body : List σ
deriving Repr

inductive Stmt where
  | functionDef (span : Span) (name : Ident) (isAsync : Bool) (decorators : List Expr)
      (params : List (Param Expr)) (returns : Option Expr) (body : List Stmt)
  | classDef (span : Span) (name : Ident) (decorators bases : List Expr)
      (keywords : List (KeywordArg Expr)) (body : List Stmt)
  | return (span : Span) (value : Option Expr)
  | delete (span : Span) (targets : List Expr)
  /-- Assignment of one value to every target, as in `a = b = value`. -/
  | assign (span : Span) (targets : List Expr) (value : Expr)
  | augAssign (span : Span) (target : Expr) (op : BinaryOp) (value : Expr)
  | annAssign (span : Span) (target annotation : Expr) (value : Option Expr)
  | for (span : Span) (isAsync : Bool) (target iter : Expr) (body orelse : List Stmt)
  | while (span : Span) (test : Expr) (body orelse : List Stmt)
  /-- A conditional; an `elif` branch is a conditional alone in the `else` block. -/
  | if (span : Span) (test : Expr) (body orelse : List Stmt)
  | with (span : Span) (isAsync : Bool) (items : List WithItem) (body : List Stmt)
  | raise (span : Span) (exc cause : Option Expr)
  | try (span : Span) (isStar : Bool) (body : List Stmt) (handlers : List (Handler Stmt))
      (orelse finalbody : List Stmt)
  | match (span : Span) (subject : Expr) (cases : List (MatchCase Stmt))
  | typeAlias (span : Span) (name : Ident) (typeParams : List Ident) (value : Expr)
  | assert (span : Span) (test : Expr) (message : Option Expr)
  | importModules (span : Span) (names : List Alias)
  | importFrom (span : Span) (module : Option String) (names : List Alias) (level : Nat)
  | global (span : Span) (names : List Ident)
  | nonlocal (span : Span) (names : List Ident)
  | expr (span : Span) (value : Expr)
  | pass (span : Span)
  | break (span : Span)
  | continue (span : Span)
deriving Repr

/-- A source file's statements. -/
structure Module where
  body : List Stmt
deriving Repr

def WithItem.exprs (item : WithItem) : List Expr :=
  item.context :: item.binding.toList

def MatchCase.exprs {σ : Type} (c : MatchCase σ) : List Expr :=
  c.pattern.allExprs ++ c.guard.toList

namespace Stmt

def span : Stmt → Span
  | functionDef s .. | classDef s .. | .return s .. | delete s .. | assign s .. | augAssign s ..
  | annAssign s .. | .for s .. | .while s .. | .if s .. | .with s .. | raise s .. | .try s ..
  | .match s .. | typeAlias s .. | assert s .. | .importModules s .. | importFrom s .. | global s ..
  | .nonlocal s .. | expr s .. | pass s | .break s | .continue s => s

/-- What kind of statement this is, in words. -/
def describe : Stmt → String
  | functionDef .. => "function definition"
  | classDef .. => "class definition"
  | .return .. => "return"
  | delete .. => "del"
  | assign .. => "assignment"
  | augAssign .. => "augmented assignment"
  | annAssign .. => "annotated assignment"
  | .for .. => "for loop"
  | .while .. => "while loop"
  | .if .. => "if"
  | .with .. => "with"
  | raise .. => "raise"
  | .try .. => "try"
  | .match .. => "match"
  | typeAlias .. => "type alias"
  | assert .. => "assert"
  | .importModules .. => "import"
  | importFrom .. => "from-import"
  | global .. => "global"
  | .nonlocal .. => "nonlocal"
  | expr .. => "expression statement"
  | pass .. => "pass"
  | .break .. => "break"
  | .continue .. => "continue"

/-- The expressions that stand directly in a statement. -/
def exprs : Stmt → List Expr
  | functionDef _ _ _ decorators params returns _ =>
    decorators ++ params.flatMap Param.exprs ++ returns.toList
  | classDef _ _ decorators bases keywords _ =>
    decorators ++ bases ++ keywords.map KeywordArg.value
  | .return _ value => value.toList
  | delete _ targets => targets
  | assign _ targets value => targets ++ [value]
  | augAssign _ target _ value => [target, value]
  | annAssign _ target annotation value => target :: annotation :: value.toList
  | .for _ _ target iter _ _ => [target, iter]
  | .while _ test _ _ | .if _ test _ _ => [test]
  | .with _ _ items _ => items.flatMap WithItem.exprs
  | raise _ exc cause => exc.toList ++ cause.toList
  | .try _ _ _ handlers _ _ => handlers.flatMap fun h => h.type.toList
  | .match _ subject cases => subject :: cases.flatMap MatchCase.exprs
  | typeAlias _ _ _ value => [value]
  | assert _ test message => test :: message.toList
  | expr _ value => [value]
  | .importModules .. | importFrom .. | global .. | .nonlocal .. | pass _ | .break _ | .continue _ => []

/-- The blocks of a statement. -/
def blocks : Stmt → List (List Stmt)
  | functionDef _ _ _ _ _ _ body | classDef _ _ _ _ _ body | .with _ _ _ body => [body]
  | .for _ _ _ _ body orelse | .while _ _ body orelse | .if _ _ body orelse => [body, orelse]
  | .try _ _ body handlers orelse finalbody =>
    body :: handlers.map Handler.body ++ [orelse, finalbody]
  | .match _ _ cases => cases.map MatchCase.body
  | .return .. | delete .. | assign .. | augAssign .. | annAssign .. | raise .. | typeAlias ..
  | assert .. | .importModules .. | importFrom .. | global .. | .nonlocal .. | expr .. | pass _ | .break _
  | .continue _ => []

/-- The statements directly below a statement. -/
def children (s : Stmt) : List Stmt :=
  s.blocks.flatten

theorem sizeOf_lt_of_mem_blocks {s : Stmt} {b : List Stmt} (h : b ∈ s.blocks) :
    sizeOf b < sizeOf s := by
  cases s <;> simp only [blocks, List.mem_cons, List.mem_append, List.not_mem_nil, or_false,
    List.cons_append] at h
  case functionDef | classDef | «with» =>
    subst h
    simp only [functionDef.sizeOf_spec, classDef.sizeOf_spec, with.sizeOf_spec]
    omega
  case «for» | «while» | «if» =>
    rcases h with rfl | rfl <;>
      simp only [for.sizeOf_spec, while.sizeOf_spec, if.sizeOf_spec] <;> omega
  case «try» =>
    rcases h with rfl | h | rfl | rfl
    · simp only [try.sizeOf_spec]
      omega
    · obtain ⟨⟨span, type, name, body⟩, hm, rfl⟩ := List.mem_map.mp h
      have := List.sizeOf_lt_of_mem hm
      simp at this ⊢
      omega
    · simp only [try.sizeOf_spec]
      omega
    · simp only [try.sizeOf_spec]
      omega
  case «match» =>
    obtain ⟨⟨span, pattern, guard, body⟩, hm, rfl⟩ := List.mem_map.mp h
    have := List.sizeOf_lt_of_mem hm
    simp at this ⊢
    omega

theorem sizeOf_lt_of_mem_children {s t : Stmt} (h : t ∈ s.children) : sizeOf t < sizeOf s := by
  obtain ⟨b, hb, ht⟩ := List.mem_flatten.mp h
  exact Nat.lt_trans (List.sizeOf_lt_of_mem ht) (sizeOf_lt_of_mem_blocks hb)

end Stmt
end PyVerify
