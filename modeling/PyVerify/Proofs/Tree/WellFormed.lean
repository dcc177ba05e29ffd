import PyVerify.Proofs.Tree.Item

namespace PyVerify

-- What may stand to the left of an assignment.
inductive Expr.IsTarget : Expr → Prop
  | name                                      : IsTarget (.name s x)
  | attr                                      : IsTarget (.attr s e i)
  | subscript                                 : IsTarget (.subscript s e index)
  | starred (h : IsTarget e)                  : IsTarget (.starred s e)
  | tuple (h : ∀ item ∈ items, IsTarget item) : IsTarget (.tuple s items)
  | list (h : ∀ item ∈ items, IsTarget item)  : IsTarget (.list s items)

mutual

theorem Expr.isTarget_of_unassignable? : ∀ {e : Expr}, e.unassignable? = none → e.IsTarget
  | .name .., _             => .name
  | .attr .., _             => .attr
  | .subscript .., _        => .subscript
  | .starred .., h          => .starred <| isTarget_of_unassignable? <| by simpa [unassignable?] using h
  | .tuple .., h            => .tuple <| isTarget_of_firstUnassignable? <| by simpa [unassignable?] using h
  | .list .., h             => .list <| isTarget_of_firstUnassignable? <| by simpa [unassignable?] using h

theorem Expr.isTarget_of_firstUnassignable? : ∀ {es : List Expr}, firstUnassignable? es = none →
    ∀ e ∈ es, e.IsTarget
  | [], _                   => nofun
  | e :: es, h              => by
    cases he : e.unassignable?
    case some => simp [firstUnassignable?, he] at h
    case none =>
      have hes : firstUnassignable? es = none := by simpa [firstUnassignable?, he] using h
      exact List.forall_mem_cons.mpr ⟨isTarget_of_unassignable? he, isTarget_of_firstUnassignable? hes⟩

end

-- The keys of a dict display, none for a mapping that is unpacked, and the values behind them.

def DictEntry.key : DictEntry Expr → Option Expr
  | pair key _  => some key
  | unpack _    => none

def DictEntry.value : DictEntry Expr → Expr
  | pair _ value    => value
  | unpack mapping  => mapping

structure Comprehends (gens : List (Generator Expr)) : Prop where
  some    : gens ≠ []
  targets : ∀ g ∈ gens, g.target.IsTarget

-- What the passes behind the parser take for granted of a node, apart from the nodes below it.
def Expr.WellFormed : Expr → Prop
  | .compare _ _ links  =>
    (links.map Prod.fst).length = (links.map Prod.snd).length ∧ 1 ≤ (links.map Prod.fst).length
  | .bool _ _ values    => 2 ≤ values.length
  | .dict _ entries     => (entries.map DictEntry.key).length = (entries.map DictEntry.value).length
  | .named _ target _   => target.isName
  | .listComp _ _ gens | .setComp _ _ gens | .dictComp _ _ _ gens | .generator _ _ gens => Comprehends gens
  | _                   => True

def Pattern.WellFormed : Pattern → Prop
  | .or _ alternatives    => 2 ≤ alternatives.length
  | .mapping _ entries _  => (entries.map Prod.fst).length = (entries.map Prod.snd).length
  | _                     => True

def Stmt.WellFormed : Stmt → Prop
  | .assign _ targets _               => targets ≠ [] ∧ ∀ e ∈ targets, e.IsTarget
  | .annAssign _ target _ _           => target.IsTarget
  | .augAssign _ target _ _           => target.isPlace
  | .for _ _ target _ _ _             => target.IsTarget
  | .delete _ targets                 => ∀ e ∈ targets, e.IsTarget
  | .with _ _ items _                 => ∀ i ∈ items, ∀ e ∈ i.binding, e.IsTarget
  | .try _ _ _ handlers _ final       => handlers ≠ [] ∨ final ≠ []
  | .match _ _ cases                  => cases ≠ []
  | _                                 => True

def Node.WellFormed : Node → Prop
  | expr e    => e.WellFormed
  | pattern p => p.WellFormed
  | stmt s    => s.WellFormed

def Item.WellFormed : Item → Prop
  | expr e    => e.WellFormed
  | pattern p => p.WellFormed
  | stmt s    => s.WellFormed
  | _         => True

end PyVerify
