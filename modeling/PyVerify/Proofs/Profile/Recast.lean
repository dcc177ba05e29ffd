import Mathlib.Data.List.Basic
import PyVerify.Profile.Basic
import PyVerify.Proofs.Tree.Recast

namespace PyVerify

variable {f : Recasting}

-- The parts of a tree that is read anew are its parts, read anew.

theorem Param.exprs_recast (p : Param Expr) : (p.recast f).exprs = p.exprs.map (Expr.recast f) := by
  simp [exprs, Option.toList_map]

theorem Generator.exprs_recast (g : Generator Expr) : (g.recast f).exprs = g.exprs.map (Expr.recast f) := by
  simp [exprs]

theorem DictEntry.exprs_recast (d : DictEntry Expr) : (d.recast f).exprs = d.exprs.map (Expr.recast f) := by
  cases d <;> simp [exprs]

theorem WithItem.exprs_recast (i : WithItem) : (i.recast f).exprs = i.exprs.map (Expr.recast f) := by
  simp [exprs, Option.toList_map]

theorem Expr.children_recast (e : Expr) : (e.recast f).children = e.children.map (Expr.recast f) := by
  cases e
  all_goals simp [children, List.flatMap_map, List.map_flatMap, Param.exprs_recast, Generator.exprs_recast, DictEntry.exprs_recast,
    Option.toList_map, -Param.recast, -Generator.recast, -DictEntry.recast]

namespace Pattern

theorem exprs_recast (p : Pattern) : (p.recast f).exprs = p.exprs.map (Expr.recast f) := by
  cases p <;> simp [exprs]

theorem children_recast (p : Pattern) : (p.recast f).children = p.children.map (recast f) := by
  cases p <;> simp [children]

theorem allExprs_recast (p : Pattern) : (p.recast f).allExprs = p.allExprs.map (Expr.recast f) := by
  have hc : ∀ q ∈ p.children, (q.recast f).allExprs = q.allExprs.map (Expr.recast f) := by
    intro q hq
    have := sizeOf_lt_of_mem_children hq
    exact allExprs_recast q
  rw [allExprs, allExprs]
  simp only [List.flatMap_subtype, List.unattach_attach, exprs_recast, children_recast, List.map_append, List.map_flatMap, List.flatMap_map]
  rw [List.flatMap_congr hc]
termination_by sizeOf p

end Pattern

theorem MatchCase.exprs_recast (c : MatchCase Stmt) : (c.recast f).exprs = c.exprs.map (Expr.recast f) := by
  simp [exprs, Pattern.allExprs_recast, Option.toList_map]

namespace Stmt

theorem exprs_recast (s : Stmt) : (s.recast f).exprs = s.exprs.map (Expr.recast f) := by
  cases s
  all_goals simp [exprs, List.flatMap_map, List.map_flatMap, Param.exprs_recast, WithItem.exprs_recast, MatchCase.exprs_recast,
    Option.toList_map, -Param.recast, -WithItem.recast, -MatchCase.recast]

theorem blocks_recast (s : Stmt) : (s.recast f).blocks = s.blocks.map (List.map (recast f)) := by
  cases s <;> simp [blocks]

theorem children_recast (s : Stmt) : (s.recast f).children = s.children.map (recast f) := by
  rw [children, blocks_recast, children, List.map_flatten]

end Stmt

-- The features of a tree depend on the names in it, and not on the places.

theorem Expr.ownFeatures_recast (e : Expr) : (e.recast f).ownFeatures = e.ownFeatures := by
  cases e <;> simp [ownFeatures]

theorem Expr.features_recast (e : Expr) : (e.recast f).features = e.features := by
  have hc : ∀ x ∈ e.children, (x.recast f).features = x.features := by
    intro x hx
    have := sizeOf_lt_of_mem_children hx
    exact features_recast x
  rw [features, features]
  simp only [List.flatMap_subtype, List.unattach_attach, ownFeatures_recast, children_recast, List.flatMap_map]
  rw [List.flatMap_congr hc]
termination_by sizeOf e

namespace Stmt

theorem isLoop_recast (s : Stmt) : (s.recast f).isLoop = s.isLoop := by
  cases s <;> simp [isLoop]

theorem ownFeatures_recast (hf : ∀ text, f.name text = text) (depth : Nat) (s : Stmt) :
    (s.recast f).ownFeatures depth = s.ownFeatures depth := by
  cases s
  case importFrom module _ _ => cases module <;> simp [ownFeatures, hf]
  all_goals simp [ownFeatures, hf, Param.positionals, List.filter_map]

theorem features_recast (hf : ∀ text, f.name text = text) (depth : Nat) (s : Stmt) :
    (s.recast f).features depth = s.features depth := by
  have hc : ∀ t ∈ s.children, ∀ depth, (t.recast f).features depth = t.features depth := by
    intro t ht depth
    have := sizeOf_lt_of_mem_children ht
    exact features_recast hf depth t
  rw [features, features]
  simp only [List.flatMap_subtype, List.unattach_attach, ownFeatures_recast hf, exprs_recast, children_recast, isLoop_recast, List.flatMap_map,
    Expr.features_recast]
  rw [List.flatMap_congr fun t ht => hc t ht _]
termination_by sizeOf s

end Stmt

theorem Profile.ofModule_eq {m n : Module} (h : m.body.map (Stmt.recast .forget) = n.body.map (Stmt.recast .forget)) :
    ofModule m = ofModule n := by
  have hf (m : Module) : m.features = (m.body.map (Stmt.recast .forget)).flatMap (Stmt.features 0) := by
    simp only [Module.features, List.flatMap_map, Stmt.features_recast (f := .forget) fun _ => rfl]
  rw [ofModule, ofModule, hf, hf, h]

end PyVerify
