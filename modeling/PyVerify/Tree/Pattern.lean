import PyVerify.Tree.Expr

/-!
# Patterns of match statements

`Pattern.boundNames` are the names a pattern binds when it matches, in source order.
-/

namespace PyVerify

inductive Pattern where
  /-- A literal or a dotted name, compared by value. -/
  | value (span : Span) (value : Expr)
  /-- A bare name; without one it is the wildcard. -/
  | capture (span : Span) (name : Option Ident)
  /-- The rest of a sequence, with or without a name. -/
  | star (span : Span) (name : Option Ident)
  | sequence (span : Span) (items : List Pattern)
  | mapping (span : Span) (entries : List (Expr × Pattern)) (rest : Option Ident)
  | class (span : Span) (cls : Expr) (items : List Pattern) (keywords : List (Ident × Pattern))
  | or (span : Span) (alternatives : List Pattern)
  | as (span : Span) (pattern : Pattern) (name : Ident)
deriving Repr

namespace Pattern

def span : Pattern → Span
  | value s .. | capture s .. | star s .. | sequence s .. | mapping s .. | «class» s .. | or s ..
  | as s .. => s

/-- The patterns directly below a pattern. -/
def children : Pattern → List Pattern
  | value .. | capture .. | star .. => []
  | sequence _ items | or _ items => items
  | mapping _ entries _ => entries.map Prod.snd
  | «class» _ _ items keywords => items ++ keywords.map Prod.snd
  | as _ pattern _ => [pattern]

/-- The expressions directly inside a pattern. -/
def exprs : Pattern → List Expr
  | value _ e => [e]
  | mapping _ entries _ => entries.map Prod.fst
  | «class» _ cls .. => [cls]
  | capture .. | star .. | sequence .. | or .. | as .. => []

private theorem sizeOf_lt_of_mem_snd {α : Type} [SizeOf α] {p : Pattern} {l : List (α × Pattern)}
    (h : p ∈ l.map Prod.snd) : sizeOf p < sizeOf l := by
  obtain ⟨⟨a, q⟩, hl, rfl⟩ := List.mem_map.mp h
  have hs := List.sizeOf_lt_of_mem hl
  simp only [Prod.mk.sizeOf_spec] at hs
  simp only
  omega

theorem sizeOf_lt_of_mem_children {p q : Pattern} (h : p ∈ q.children) : sizeOf p < sizeOf q := by
  cases q <;> simp only [children, List.mem_append, List.not_mem_nil] at h
  case sequence | or => have := List.sizeOf_lt_of_mem h; simp; omega
  case mapping => have := sizeOf_lt_of_mem_snd h; simp; omega
  case «class» =>
    rcases h with h | h
    · have := List.sizeOf_lt_of_mem h
      simp
      omega
    · have := sizeOf_lt_of_mem_snd h
      simp
      omega
  case as =>
    obtain rfl := List.mem_singleton.mp h
    simp
    omega

/-- The patterns whose names a pattern binds: all alternatives bind the same, so one is enough. -/
def binders : Pattern → List Pattern
  | or _ alternatives => alternatives.take 1
  | p => p.children

theorem binders_subset_children {p q : Pattern} (h : p ∈ q.binders) : p ∈ q.children := by
  cases q <;> first | exact h | exact List.mem_of_mem_take h

/-- The name that the pattern itself binds, behind those of its parts. -/
def ownName? : Pattern → Option Ident
  | capture _ name | star _ name | mapping _ _ name => name
  | as _ _ name => some name
  | value .. | sequence .. | «class» .. | or .. => none

def boundNames (p : Pattern) : List String :=
  p.binders.attach.flatMap (fun ⟨q, h⟩ =>
    have := sizeOf_lt_of_mem_children (binders_subset_children h)
    q.boundNames) ++ (p.ownName?.map Ident.text).toList
termination_by sizeOf p

/-- The expressions inside a pattern at any depth. -/
def allExprs (p : Pattern) : List Expr :=
  p.exprs ++ p.children.attach.flatMap fun ⟨q, h⟩ =>
    have := sizeOf_lt_of_mem_children h
    q.allExprs
termination_by sizeOf p

end Pattern
end PyVerify
