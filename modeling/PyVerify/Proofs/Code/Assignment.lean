import PyVerify.Proofs.Code.Assembly
import PyVerify.Proofs.Code.Evaluation

namespace PyVerify

namespace Code

-- A place where the code of a block assigns to a name of the source.
structure Assignment where
  name      : String
  -- It is in a loop or in a branch.
  nested    : Bool
  -- It changes the value that the name has. Any other one declares a name that is new.
  augmented : Bool

-- An assignment to a target, if the target is a name.
def targetAssignments (nested augmented : Bool) : PyVerify.Expr → List Assignment
  | .name _ ident => [⟨ident, nested, augmented⟩]
  | _             => []

end Code

open Code

-- The assignments to names in the code of a statement, in the order of the text. What a comment stands for
-- assigns nothing.

mutual

def Stmt.assignments (v : Verifier) (nested : Bool) : Stmt → List Assignment
  | .assign _ targets e           =>
    if !targets.any isUnpacking && (e :: targets).all (lowerable v) then
      targets.flatMap (targetAssignments nested false)
    else []
  | .annAssign _ target _ value   =>
    if (target :: value.toList).all (lowerable v) then targetAssignments nested false target else []
  | .augAssign _ target op e      =>
    if (infixOp? op).isSome && [target, e].all (lowerable v) then targetAssignments nested true target
    else []
  | .for _ _ target@(.name ..) iter block _ =>
    match rangeArgs? iter with
    | some args =>
      if args.all (lowerable v) then targetAssignments nested false target ++ Block.assignments v true block
      else []
    | none => []
  | .while _ _ block _            => Block.assignments v true block
  | .if _ _ block other           => Block.assignments v true block ++ Block.assignments v true other
  | _ => []

def Block.assignments (v : Verifier) (nested : Bool) : List Stmt → List Assignment
  | []      => []
  | s :: ss => s.assignments v nested ++ Block.assignments v nested ss

end

namespace Code

-- The names that these assignments declare behind a scope, in the order of the text.
def fresh (σ : Scope) : List Assignment → List String
  | []      => []
  | a :: as => if a.augmented ∨ a.name ∈ σ then fresh σ as else a.name :: fresh (a.name :: σ) as

-- The scope behind these assignments.
def after (σ : Scope) (as : List Assignment) : Scope :=
  (fresh σ as).reverse ++ σ

section

variable {σ ρ τ : Scope} {a : Assignment} {as bs : List Assignment}

@[simp] theorem fresh_nil : fresh σ [] = [] := rfl

@[simp] theorem after_nil : after σ [] = σ := rfl

theorem fresh_cons_of_known (h : a.augmented ∨ a.name ∈ σ) : fresh σ (a :: as) = fresh σ as := by
  simp [fresh, h]

theorem fresh_cons_of_new (ha : ¬a.augmented) (h : a.name ∉ σ) :
    fresh σ (a :: as) = a.name :: fresh (a.name :: σ) as := by
  simp [fresh, ha, h]

theorem fresh_append : fresh σ (as ++ bs) = fresh σ as ++ fresh (after σ as) bs := by
  induction as generalizing σ
  case nil => simp
  case cons a as hi =>
    by_cases h : a.augmented ∨ a.name ∈ σ
    case pos => simp [fresh_cons_of_known h, hi, after]
    case neg =>
      obtain ⟨ha, hn⟩ := not_or.mp h
      simp [fresh_cons_of_new ha hn, hi, after]

theorem after_append : after σ (as ++ bs) = after (after σ as) bs := by
  simp [after, fresh_append]

theorem fresh_nodup : (fresh σ as).Nodup ∧ ∀ n ∈ fresh σ as, n ∉ σ := by
  induction as generalizing σ
  case nil => simp
  case cons a as hi =>
    by_cases h : a.augmented ∨ a.name ∈ σ
    case pos => simpa [fresh_cons_of_known h] using hi
    case neg =>
      obtain ⟨ha, hn⟩ := not_or.mp h
      obtain ⟨hd, hf⟩ := hi (σ := a.name :: σ)
      rw [fresh_cons_of_new ha hn]
      refine ⟨List.nodup_cons.mpr ⟨fun hm => hf _ hm List.mem_cons_self, hd⟩, ?_⟩
      exact List.forall_mem_cons.mpr ⟨hn, fun m hm hs => hf m hm <| List.mem_cons_of_mem _ hs⟩

end

-- The names that a piece of code declares, in the order of the text.

mutual

def Stmt.declared : Stmt → List String
  | .declare _ name _                       => [name]
  | .while _ body | .forRange _ body        => blockDeclared body
  | .if branches orelse                     => branchDeclared branches ++ orelseDeclared orelse
  | .assign .. | .augment .. | .term _ | .return _ | .returnUnsupported | .break | .continue | .placeholder _ => []

def blockDeclared : List Stmt → List String
  | []      => []
  | s :: ss => s.declared ++ blockDeclared ss

def branchDeclared : List (Condition × List Stmt) → List String
  | []                => []
  | (_, body) :: rest => blockDeclared body ++ branchDeclared rest

def orelseDeclared : Option (List Stmt) → List String
  | none      => []
  | some body => blockDeclared body

end

section

variable {v : Verifier} {σ ρ τ : Scope} {a : Assignment} {as bs : List Assignment} {nested : Bool}
  {e : PyVerify.Expr} {es : List PyVerify.Expr} {s : PyVerify.Stmt} {code : List Stmt}

@[simp] theorem blockDeclared_append {more : List Stmt} :
    blockDeclared (code ++ more) = blockDeclared code ++ blockDeclared more := by
  induction code <;> simp_all [blockDeclared]

@[simp] theorem blockDeclared_loopElse {other : List PyVerify.Stmt} : blockDeclared (loopElse other) = [] := by
  unfold loopElse
  split <;> rfl

-- Code declares the names that are new to its scope, and only these are in the scope behind it.
structure Introduces (as : List Assignment) (σ : Scope) (names : List String) (τ : Scope) : Prop where
  scope : after σ as = τ
  names : (fresh σ as).map identifier = names

namespace Introduces

theorem nil : Introduces [] σ [] σ :=
  ⟨rfl, rfl⟩

theorem known (h : a.augmented ∨ a.name ∈ σ) : Introduces [a] σ [] σ :=
  ⟨by simp [after, fresh_cons_of_known h], by simp [fresh_cons_of_known h]⟩

theorem new (ha : ¬a.augmented) (h : a.name ∉ σ) : Introduces [a] σ [identifier a.name] (a.name :: σ) :=
  ⟨by simp [after, fresh_cons_of_new ha h], by simp [fresh_cons_of_new ha h]⟩

theorem append {ns ms : List String} (h : Introduces as σ ns ρ) (g : Introduces bs ρ ms τ) :
    Introduces (as ++ bs) σ (ns ++ ms) τ := by
  obtain ⟨rfl, rfl⟩ := h
  obtain ⟨rfl, rfl⟩ := g
  exact ⟨after_append, by simp [fresh_append]⟩

theorem declares {type : CType} {ident : String} {z : Span} (h : Declares type ident σ code τ) :
    Introduces (targetAssignments nested false (.name z ident)) σ (blockDeclared code) τ := by
  cases h
  case new h    => exact new (a := ⟨ident, nested, false⟩) Bool.false_ne_true h
  case known h  => exact known (.inr h)

theorem augments : Introduces (targetAssignments nested true e) σ [] σ := by
  cases e
  case name => exact known (.inl rfl)
  all_goals exact nil

end Introduces

theorem targetAssignments_eq_nil {augmented : Bool} (h : ∀ s ident, e ≠ .name s ident) :
    targetAssignments nested augmented e = [] := by
  unfold targetAssignments
  split
  case h_1 => exact absurd rfl (h _ _)
  case h_2 => rfl

theorem Assigns.introduces {type : CType} {value : Term} {p : Option Term} {m : Notes} (hp : Places v e p m)
    (h : Assigns type value e p σ code τ) :
    Introduces (targetAssignments nested false e) σ (blockDeclared code) τ := by
  cases hp
  case name =>
    cases h
    case new h    => exact .new (a := ⟨_, nested, false⟩) Bool.false_ne_true h
    case known h  => exact .known (.inr h)
  case term hn _ =>
    cases h
    rw [targetAssignments_eq_nil hn]
    exact .nil

theorem AssignsAll.introduces {type : CType} {value : Term} {ps : List (Option Term)} {m : Notes}
    (hp : PlacesAll v es ps m) (h : AssignsAll type value es ps σ code τ) :
    Introduces (es.flatMap (targetAssignments nested false)) σ (blockDeclared code) τ := by
  induction h generalizing m
  case nil => exact .nil
  case cons h _ hi =>
    obtain _ | ⟨hp, hps⟩ := hp
    rw [List.flatMap_cons, blockDeclared_append]
    exact (h.introduces hp).append (hi hps)

theorem Rejects.assignments_eq {what : Placeholder} (h : Rejects v s what) : s.assignments v nested = [] := by
  cases h
  case kind h => cases h <;> rfl
  case unpacking h => simp [Stmt.assignments, h]
  case value h => simp [Stmt.assignments, h.not_lowerable]
  case target ht h =>
    refine if_neg fun hl => h.not_lowerable ?_
    simp only [Bool.and_eq_true, List.all_eq_true] at hl
    exact hl.right _ <| List.mem_cons_of_mem _ ht
  case annotatedValue h | annotatedTarget h => simp [Stmt.assignments, h.not_lowerable]
  case augment h => simp [Stmt.assignments, h]
  case augmentedTarget h | augmentedValue h => simp [Stmt.assignments, h.not_lowerable]
  case expr | assert => rfl
  case loopTarget target _ _ _ _ _ h => cases target <;> first | rfl | exact absurd rfl (h _ _)
  case loopIterable h => simp [Stmt.assignments, h]
  case bound hr ha h =>
    have hl := List.all_eq_true.not.mpr fun hl => h.not_lowerable (hl _ ha)
    simp [Stmt.assignments, hr, hl]

theorem Silent.assignments_eq (h : Silent s) : s.assignments v nested = [] := by
  cases h <;> rfl

theorem assignments_augAssign {op : BinaryOp} {sign : InfixOp} {target : PyVerify.Expr} {t u : Term} {m n : Notes}
    {z : Span} (ho : infixOp? op = some sign) (ht : Lowers v target t m) (h : Lowers v e u n) :
    (Stmt.augAssign z target op e).assignments v nested = targetAssignments nested true target := by
  have ht := Image.lowerable ⟨_, ht⟩
  have h  := Image.lowerable ⟨_, h⟩
  simp [Stmt.assignments, ho, ht, h]

theorem assignments_for {iter : PyVerify.Expr} {ts : List Term} {n : Notes} {block other : List PyVerify.Stmt}
    {isAsync : Bool} {ident : String} {z y : Span} (hr : rangeArgs? iter = some es) (ha : LowersAll v es ts n) :
    (PyVerify.Stmt.for z isAsync (.name y ident) iter block other).assignments v nested =
      targetAssignments nested false (.name y ident) ++ Block.assignments v true block := by
  simp [Stmt.assignments, hr, all_lowerable ha.images]

end

-- What a piece of code declares are the names that its assignments are the first ones to.

mutual

theorem Emits.introduces {nested : Bool} :
    Emits v s σ code n τ → Introduces (s.assignments v nested) σ (blockDeclared code) τ
  | .silent h => h.assignments_eq ▸ .nil
  | .placeholder h => h.assignments_eq ▸ .nil
  | .break | .continue | .returnZero | .return _ | .returnUnsupported _ | .expr .. | .assert _ => .nil
  | .assign hu h hp ha => by
    have hl := Image.lowerable ⟨_, h⟩
    simpa [Stmt.assignments, hu, hl, hp.all_lowerable] using ha.introduces hp
  | .annAssign h hp ha => by
    have hl := Image.lowerable ⟨_, h⟩
    simpa [Stmt.assignments, hl, hp.lowerable] using ha.introduces hp
  | .typed hd => by
    simpa [Stmt.assignments, lowerable_name] using Introduces.declares hd
  | .typedPlace h => by simpa [Stmt.assignments, targetAssignments_eq_nil h, blockDeclared] using Introduces.nil
  | .augAssign ho ht h => by
    rw [assignments_augAssign ho ht h]
    exact .augments
  | .if _ hb ho => by
    simpa [Stmt.assignments, blockDeclared, Stmt.declared, branchDeclared] using hb.introduces.append ho.introduces
  | .while _ hb => by
    simpa [Stmt.assignments, blockDeclared, Stmt.declared] using hb.introduces
  | .for hr hb => by
    obtain ⟨hr, ha, _, hd⟩ := hr
    rw [assignments_for hr ha]
    simpa [blockDeclared, Stmt.declared] using (Introduces.declares hd).append hb.introduces

theorem EmitsBlock.introduces {nested : Bool} :
    EmitsBlock v ss σ code n τ → Introduces (Block.assignments v nested ss) σ (blockDeclared code) τ
  | .nil => .nil
  | .cons h hs => by
    rw [Block.assignments, blockDeclared_append]
    exact h.introduces.append hs.introduces

theorem EmitsOrelse.introduces : EmitsOrelse v ss σ more final n τ →
    Introduces (Block.assignments v true ss) σ (branchDeclared more ++ orelseDeclared final) τ
  | .nil => .nil
  | .elif _ hb ho => by
    simpa [Block.assignments, Stmt.assignments, branchDeclared] using hb.introduces.append ho.introduces
  | .else _ _ h => by simpa [branchDeclared, orelseDeclared] using h.introduces

end

section

variable {v : Verifier} {s : PyVerify.Stmt} {ss : List PyVerify.Stmt} {σ τ : Scope} {code : List Stmt}

theorem assignments_append {nested : Bool} {rest : List PyVerify.Stmt} :
    Block.assignments v nested (ss ++ rest) = Block.assignments v nested ss ++ Block.assignments v nested rest := by
  induction ss <;> simp_all [Block.assignments]

theorem EmitsTop.introduces (h : EmitsTop v s σ code τ) :
    Introduces (Block.assignments v false (mainBlock s)) σ (blockDeclared code) τ := by
  cases h
  case block h => exact h.introduces
  case guard h => simpa [blockDeclared, Stmt.declared] using h.introduces

theorem EmitsMain.introduces (h : EmitsMain v ss σ code τ) :
    Introduces (Block.assignments v false (ss.flatMap mainBlock)) σ (blockDeclared code) τ := by
  induction h
  case nil => exact .nil
  case cons h _ hi =>
    rw [List.flatMap_cons, assignments_append, blockDeclared_append]
    exact h.introduces.append hi

end

end Code

variable {v : Verifier} {nested augmented : Bool} {e : Expr} {a : Assignment} {bs cs : List Binding}

-- An assignment in the code of a block is in the block, and comes from a binding of the source if it does not
-- only change a value.
structure Code.Assignment.Bound (nested : Bool) (bs : List Binding) (a : Assignment) : Prop where
  nested : nested → a.nested
  name   : a.augmented ∨ a.name ∈ bs.map Binding.name

theorem Code.Assignment.Bound.mono (h : Bound nested bs a) (hs : bs ⊆ cs) : Bound nested cs a :=
  ⟨h.nested, h.name.imp_right fun hn => List.map_subset _ hs hn⟩

-- It is in each block around its own one.
theorem Code.Assignment.Bound.outward (h : Bound true bs a) : Bound nested bs a :=
  ⟨fun _ => h.nested rfl, h.name⟩

theorem Code.bound_of_mem_targetAssignments (v : Verifier) (type : CType)
    (h : a ∈ targetAssignments nested augmented e) :
    a.Bound nested (targetBindings v type nested e) ∧ a.augmented = augmented := by
  unfold targetAssignments at h
  split at h
  case h_1 =>
    obtain rfl := List.mem_singleton.mp h
    exact ⟨⟨id, by simp [targetBindings]⟩, rfl⟩
  case h_2 => cases h

mutual

theorem Stmt.bound_of_mem_assignments {nested : Bool} :
    (s : Stmt) → a ∈ s.assignments v nested → a.Bound nested (stmtBindings v nested s)
  | .assign _ targets e, h => by
    obtain ⟨-, h⟩ := List.mem_ite_nil_right.mp h
    obtain ⟨target, ht, h⟩ := List.mem_flatMap.mp h
    exact (bound_of_mem_targetAssignments v _ h).left.mono fun b hb => List.mem_flatMap.mpr ⟨target, ht, hb⟩
  | .annAssign .., h => (bound_of_mem_targetAssignments v _ (List.mem_ite_nil_right.mp h).right).left
  | .augAssign .., h => by
    obtain ⟨-, h⟩ := List.mem_ite_nil_right.mp h
    obtain ⟨hb, ha⟩ := bound_of_mem_targetAssignments v v.intType h
    exact ⟨hb.nested, .inl ha⟩
  | .for _ _ target iter block _, h => by
    cases target
    case name =>
      cases hr : rangeArgs? iter <;> simp only [Stmt.assignments, hr] at h
      case none => cases h
      case some =>
        obtain ⟨-, h⟩ := List.mem_ite_nil_right.mp h
        simp only [stmtBindings, hr, Option.isSome_some, if_true]
        obtain h | h := List.mem_append.mp h
        · exact (bound_of_mem_targetAssignments v _ h).left.mono <| List.subset_append_left ..
        · exact (Block.bound_of_mem_assignments block h).outward.mono <| List.subset_append_right ..
    all_goals cases h
  | .while _ _ block _, h => (Block.bound_of_mem_assignments block h).outward
  | .if _ _ block other, h => by
    obtain h | h := List.mem_append.mp h
    · exact (Block.bound_of_mem_assignments block h).outward.mono <| List.subset_append_left ..
    · exact (Block.bound_of_mem_assignments other h).outward.mono <| List.subset_append_right ..
  | .functionDef .., h | .classDef .., h | .return .., h | .delete .., h | .with .., h | .raise .., h | .try .., h
  | .match .., h | .typeAlias .., h | .assert .., h | .importModules .., h | .importFrom .., h | .global .., h
  | .nonlocal .., h | .expr .., h | .pass _, h | .break _, h | .continue _, h => nomatch h

theorem Block.bound_of_mem_assignments {nested : Bool} :
    (ss : List Stmt) → a ∈ Block.assignments v nested ss → a.Bound nested (blockBindings v nested ss)
  | s :: ss, h => by
    obtain h | h := List.mem_append.mp h
    · exact (s.bound_of_mem_assignments h).mono <| List.subset_append_left ..
    · exact (Block.bound_of_mem_assignments ss h).mono <| List.subset_append_right ..

end

end PyVerify
