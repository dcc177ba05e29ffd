import PyVerify.Proofs.Code.Assembly
import PyVerify.Proofs.Code.Evaluation

namespace PyVerify.Code

variable {v : Verifier}

section

variable {e func : PyVerify.Expr} {es : List PyVerify.Expr} {t : Term} {ts : List Term} {m n : Notes} {o : Origin}
  {s : Span} {keywords : List (KeywordArg PyVerify.Expr)} {p : String}

-- The call of a primitive has one term, and notes the primitive.
theorem Lowers.of_primitive (h : Lowers v (.call s func es keywords) t n) (hp : v.primitive? func = some p)
    (hn : Verifier.isNondet p) : t = .call p [] ∧ p ∈ n.primitives := by
  cases h
  case assume ha _ =>
    obtain rfl := Option.some.inj (hp.symm.trans ha)
    exact absurd rfl (Verifier.ne_assume_of_isNondet hn)
  case nondet _ hq _ =>
    obtain rfl := Option.some.inj (hp.symm.trans hq)
    exact ⟨rfl, List.mem_append_right _ List.mem_cons_self⟩
  case call hc _ => cases hp.symm.trans hc

-- The expression has a term, and the primitives that it calls for are among the notes.
def Noted (v : Verifier) (n : Notes) (e : PyVerify.Expr) : Prop :=
  ∃ t m, Lowers v e t m ∧ m.primitives ⊆ n.primitives

namespace Noted

theorem mono (h : Noted v m e) (hs : m.primitives ⊆ n.primitives) : Noted v n e := by
  obtain ⟨t, k, hl, hk⟩ := h
  exact ⟨t, k, hl, List.Subset.trans hk hs⟩

theorem left (h : Noted v m e) : Noted v (m ++ n) e :=
  h.mono (List.subset_append_left ..)

theorem right (h : Noted v n e) : Noted v (m ++ n) e :=
  h.mono (List.subset_append_right ..)

-- The call of a primitive notes it.
theorem primitive (h : Noted v n (.call s func es keywords)) (hp : v.primitive? func = some p)
    (hn : Verifier.isNondet p) : p ∈ n.primitives := by
  obtain ⟨_, _, hl, hs⟩ := h
  exact hs (hl.of_primitive hp hn).right

end Noted

theorem Lowers.noted (h : Lowers v e t n) : Noted v n e :=
  ⟨t, n, h, List.Subset.refl _⟩

theorem LowersAll.noted (h : LowersAll v es ts n) : ∀ e ∈ es, Noted v n e := by
  induction es generalizing ts n
  all_goals cases h
  case nil => simp
  case cons hi _ _ _ _ h hs => exact List.forall_mem_cons.mpr ⟨h.noted.left, fun e he => (hi hs e he).right⟩

-- The notes of an expression have those of its parts,
theorem Lowers.kept_noted (h : Lowers v e t n) : ∀ x ∈ e.kept true v, Noted v n x := by
  cases h
  case name | int | float | str | truth | none => nofun
  case binary hl hr => simp [Expr.kept, Expr.children, hl.noted.left.right, hr.noted.right.right]
  case unary h => simpa [Expr.kept, Expr.children] using h.noted
  case junction hs => exact hs.noted
  case compare hl hs =>
    intro x hx
    cases mem_operands hx
    case inl he => exact he ▸ hl.noted.left
    case inr hm => exact (hs.noted x hm).right
  case assume hp hs => simpa [Expr.kept, hp] using hs.noted
  case nondet hp hn hs => simp [Expr.kept, hp, Verifier.ne_assume_of_isNondet hn]
  case call hp hs => simpa [Expr.kept, hp] using hs.noted
  case attr h => simpa [Expr.kept, Expr.children] using h.noted.right
  case subscript h hx => simp [Expr.kept, Expr.children, h.noted.left.right, hx.noted.right.right]
  case conditional ht hb ho =>
    simp [Expr.kept, Expr.children, ht.noted.left, hb.noted.left.right, ho.noted.right.right]

-- and those of all calls in it.
theorem Noted.calls (e : PyVerify.Expr) (h : Noted v n e) : ∀ x ∈ e.calls true v, Noted v n x := by
  intro x hx
  rw [Expr.calls_eq, List.mem_append, List.mem_flatMap] at hx
  cases hx
  case inl hx =>
    split at hx
    case isTrue   => exact List.mem_singleton.mp hx ▸ h
    case isFalse  => cases hx
  case inr hx =>
    obtain ⟨y, hy, hx⟩ := hx
    have := Expr.sizeOf_lt_of_mem_children (Expr.kept_subset_children hy)
    obtain ⟨t, m, hl, hs⟩ := h
    exact Noted.calls y ((hl.kept_noted y hy).mono hs) x hx
termination_by sizeOf e

-- The test of an assertion is not a call of the source.
def Origin.Noted (v : Verifier) (n : Notes) : Origin → Prop
  | .call e       => Code.Noted v n e
  | .assertion .. => True

theorem Origin.Noted.left (h : o.Noted v m) : o.Noted v (m ++ n) := by
  cases o
  case call       => exact Code.Noted.left h
  case assertion  => trivial

theorem Origin.Noted.right (h : o.Noted v n) : o.Noted v (m ++ n) := by
  cases o
  case call       => exact Code.Noted.right h
  case assertion  => trivial

theorem together_noted (h : ∀ e ∈ es, Noted v n e) : ∀ o ∈ together true v es, o.Noted v n := by
  unfold together
  split
  case isTrue =>
    refine List.forall_mem_map.mpr fun x hx => ?_
    obtain ⟨e, he, hx⟩ := List.mem_flatMap.mp hx
    exact (h e he).calls e x hx
  case isFalse => nofun

theorem Tests.noted {c : Condition} (h : Tests v e c n) : ∀ o ∈ together true v [e], o.Noted v n := by
  cases h
  case term h         => exact together_noted (by simpa using h.noted)
  case unsupported h  => simp [together_eq_nil List.mem_cons_self h]

theorem Places.noted {p : Option Term} (h : Places v e p n) : Noted v n e := by
  cases h
  case name   => exact Lowers.name.noted
  case term h => exact h.noted

theorem PlacesAll.noted {ps : List (Option Term)} (h : PlacesAll v es ps n) : ∀ e ∈ es, Noted v n e := by
  induction h
  case nil        => nofun
  case cons h _ hi => exact List.forall_mem_cons.mpr ⟨h.noted.left, fun e he => (hi e he).right⟩

end

mutual

theorem Emits.noted : Emits v s σ code n τ → ∀ o ∈ s.origins true v, o.Noted v n
  | .silent h => by cases h <;> nofun
  | .placeholder h => by simp [h.origins_eq]
  | .break | .continue | .returnZero => nofun
  | .return h => together_noted (by simpa using h.noted)
  | .returnUnsupported h => by simp [Stmt.origins, together_eq_nil List.mem_cons_self h]
  | .assign hu h hp _ => by
    rw [Stmt.origins, if_neg hu]
    refine together_noted fun x hx => ?_
    cases List.mem_append.mp (mem_of_mem_assigned hx)
    case inl hm => exact (hp.noted x hm).right
    case inr hm => exact List.mem_singleton.mp hm ▸ h.noted.left
  | .annAssign h hp _ => by
    refine together_noted fun x hx => ?_
    cases List.mem_append.mp hx
    case inl hm => exact mem_of_mem_place hm ▸ hp.noted.right
    case inr hm => exact List.mem_singleton.mp hm ▸ h.noted.left
  | .typed _ | .typedPlace _ => by simp [Stmt.origins]
  | .augAssign ho ht h => by
    rw [Stmt.origins, ho, Option.isSome_some, if_pos rfl]
    exact together_noted (by simp [ht.noted.left.right, h.noted.right.right])
  | .expr hs h => by
    rw [origins_expr hs]
    exact together_noted (by simpa using h.noted)
  | .assert h => by
    rw [Stmt.origins, if_pos (Image.lowerable ⟨_, h⟩)]
    exact List.forall_mem_cons.mpr ⟨trivial, together_noted (by simpa using h.noted)⟩
  | .if ht hb ho => by
    simp only [Stmt.origins, List.forall_mem_append]
    exact ⟨fun o h => (ht.noted o h).left, fun o h => (hb.noted o h).left.right,
      fun o h => (ho.noted o h).right.right⟩
  | .while ht hb => by
    simp only [Stmt.origins, List.forall_mem_append]
    exact ⟨fun o h => (ht.noted o h).left, fun o h => (hb.noted o h).right⟩
  | .for h hb => by
    obtain ⟨hr, ha, _, _⟩ := h
    simp only [Stmt.origins, hr]
    rw [if_pos (all_lowerable ha.images), List.forall_mem_append]
    exact ⟨fun o h => (together_noted ha.noted o h).left, fun o h => (hb.noted o h).right⟩

theorem EmitsBlock.noted : EmitsBlock v ss σ code n τ → ∀ o ∈ Block.origins true v ss, o.Noted v n
  | .nil => nofun
  | .cons h hs => by
    rw [Block.origins, List.forall_mem_append]
    exact ⟨fun o ho => (h.noted o ho).left, fun o ho => (hs.noted o ho).right⟩

theorem EmitsOrelse.noted : EmitsOrelse v ss σ more final n τ → ∀ o ∈ Block.origins true v ss, o.Noted v n
  | .nil => nofun
  | .elif ht hb ho => by
    simp only [Block.origins, Stmt.origins, List.append_nil, List.forall_mem_append]
    exact ⟨fun o h => (ht.noted o h).left, fun o h => (hb.noted o h).left.right,
      fun o h => (ho.noted o h).right.right⟩
  | .else _ _ h => h.noted

end

end PyVerify.Code
