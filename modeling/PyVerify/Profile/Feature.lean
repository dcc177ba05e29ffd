import PyVerify.Tree.Stmt

/-!
# Features of a program

What an analysis notes when it walks over a program, node by node and in source order.
-/

namespace PyVerify

inductive Feature where
  | function (name : String)
  | class (name : String)
  | importing (module : String)
  /-- A loop inside so many loops, itself included. -/
  | loop (depth : Nat)
  | conditional
  | exception
  | typeHint
  | operator (op : BinaryOp)
  | subscript
  | attribute
deriving DecidableEq, Repr

/-- What a node itself shows, without its parts. -/
def Expr.ownFeatures : Expr → List Feature
  | .binary _ _ op _ => [.operator op]
  | .attr .. => [.attribute]
  | .subscript .. => [.subscript]
  | _ => []

theorem Expr.ownFeatures_cases {e : Expr} {f : Feature} (h : f ∈ e.ownFeatures) :
    (∃ op, f = .operator op) ∨ f = .subscript ∨ f = .attribute := by
  cases e <;> simp_all [ownFeatures]

/-- The features of an expression and everything in it. -/
def Expr.features (e : Expr) : List Feature :=
  e.ownFeatures ++ e.children.attach.flatMap fun ⟨x, h⟩ =>
    have := sizeOf_lt_of_mem_children h
    x.features
termination_by sizeOf e

namespace Stmt

def isLoop : Stmt → Bool
  | .for .. | .while .. => true
  | _ => false

/-- What a statement inside `depth` loops itself shows. -/
def ownFeatures (depth : Nat) : Stmt → List Feature
  | functionDef _ name _ _ params returns _ =>
    .function name.text ::
      if returns.isSome || (Param.positionals params).any (fun p => p.annotation.isSome) then [.typeHint]
      else []
  | classDef _ name .. => [.class name.text]
  | .for .. | .while .. => [.loop (depth + 1)]
  | .if .. | .match .. => [.conditional]
  | .try .. | raise .. => [.exception]
  | typeAlias .. => [.typeHint]
  | augAssign _ _ op _ => [.operator op]
  | .importModules _ names => names.map fun a => .importing a.name
  | importFrom _ (some module) .. => [.importing module]
  | _ => []

theorem not_access_mem_ownFeatures {t : Stmt} {depth : Nat} :
    .subscript ∉ t.ownFeatures depth ∧ .attribute ∉ t.ownFeatures depth := by
  fun_cases ownFeatures depth t <;> simp_all

/-- The features of a statement inside `depth` loops and of everything in it. -/
def features (depth : Nat) (s : Stmt) : List Feature :=
  s.ownFeatures depth ++ s.exprs.flatMap Expr.features ++
    s.children.attach.flatMap fun ⟨t, h⟩ =>
      have := sizeOf_lt_of_mem_children h
      t.features (if s.isLoop then depth + 1 else depth)
termination_by sizeOf s

end Stmt

def Module.features (m : Module) : List Feature :=
  m.body.flatMap (Stmt.features 0)

end PyVerify
