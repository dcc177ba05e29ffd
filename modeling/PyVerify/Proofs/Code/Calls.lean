import Mathlib.Data.List.Forall2
import PyVerify.Proofs.Code.Emission
import PyVerify.Proofs.Tree.Part

namespace PyVerify

variable {v : Code.Verifier} {copies : Bool}

section

variable {left x e : Expr} {links : List (CompareOp × Expr)}

-- The operands of a comparison, link by link. The one between two links stands in both of them: it is
-- listed twice if `copies` are.
def operands (copies : Bool) (left : Expr) : List (CompareOp × Expr) → List Expr
  | []              => []
  | [(_, x)]        => [left, x]
  | (_, x) :: links => left :: ((if copies then [x] else []) ++ operands copies x links)

theorem mem_operands (h : x ∈ operands copies left links) : x = left ∨ x ∈ links.map Prod.snd := by
  fun_induction operands copies left links
  all_goals grind

namespace Expr

-- The parts of an expression that go into its term, in the order of the text. A primitive for an arbitrary
-- value takes no arguments.
def kept (copies : Bool) (v : Code.Verifier) : Expr → List Expr
  | .compare _ left links => operands copies left links
  | .call _ func args _   =>
    match v.primitive? func with
    | some p  => if p = "assume" then args else []
    | none    => args
  | e => e.children

theorem kept_subset_children (h : x ∈ e.kept copies v) : x ∈ e.children := by
  unfold kept at h
  split at h
  case h_1 => simpa [children] using mem_operands h
  case h_2 =>
    simp only [children]
    split at h <;> grind
  case h_3 => exact h

-- A call is written as one, or as a cast. The conversion to a truth value is a comparison with zero.
def isCall (v : Code.Verifier) : Expr → Bool
  | .call _ func args _ =>
    match v.primitive? func, func, args with
    | none, .name _ "bool", [_] => false
    | _, _, _                   => true
  | _ => false

-- The calls of an expression that go into its term. With `copies` a call is listed as often as it is
-- written, and otherwise once.
def calls (copies : Bool) (v : Code.Verifier) (e : Expr) : List Expr :=
  (if e.isCall v then [e] else []) ++
    (e.kept copies v).attach.flatMap fun ⟨x, h⟩ =>
      have := sizeOf_lt_of_mem_children (kept_subset_children h)
      x.calls copies v
termination_by sizeOf e

theorem calls_eq (e : Expr) :
    e.calls copies v = (if e.isCall v then [e] else []) ++ (e.kept copies v).flatMap (calls copies v) := by
  rw [calls]
  simp

theorem isCall_eq_false_iff {s z : Span} {ident : String} {args : List Expr} {keywords : List (KeywordArg Expr)}
    (hp : v.primitive? (.name z ident) = none) :
    (call s (.name z ident) args keywords).isCall v = false ↔ ident = "bool" ∧ ∃ x, args = [x] := by
  simp only [isCall, hp]
  split <;> simp_all

end Expr

end

namespace Code

-- The calls in a term, in the order of the text; a cast counts as a call.

mutual

def Term.calls : Term → List Term
  | .ident _ | .int _ | .float _ | .str _ => []
  | .infix2 left _ right          => left.calls ++ right.calls
  | .joined _ operands            => callsOf operands
  | .sign _ t | .paren t | .member t _ => t.calls
  | .conditional test body orelse => test.calls ++ (body.calls ++ orelse.calls)
  | t@(.call _ args)              => t :: callsOf args
  | t@(.cast _ operand)           => t :: operand.calls
  | .index base index             => base.calls ++ index.calls

def callsOf : List Term → List Term
  | []      => []
  | t :: ts => t.calls ++ callsOf ts

end

attribute [simp] Term.calls callsOf

@[simp] theorem calls_grouped {t : Term} : (grouped e t).calls = t.calls := by
  unfold grouped
  split <;> simp

@[simp] theorem calls_bare {t : Term} : (bare e t).calls = t.calls := by
  unfold bare
  split <;> simp

@[simp] theorem calls_signTerm {op : UnaryOp} {t : Term} : (signTerm op t).calls = t.calls := by
  cases op <;> simp [signTerm]

@[simp] theorem callsOf_map_paren {ts : List Term} : callsOf (ts.map .paren) = callsOf ts := by
  induction ts <;> simp_all

theorem callsOf_eq {ts : List Term} : callsOf ts = (ts.map Term.calls).flatten := by
  induction ts <;> simp_all

theorem LowersAll.callsOf_zipWith {f : PyVerify.Expr → Term → Term} (hf : ∀ e t, (f e t).calls = t.calls)
    (h : LowersAll v es ts n) : callsOf (es.zipWith f ts) = callsOf ts := by
  rw [callsOf_eq, callsOf_eq, h.map_zipWith hf]

-- The calls of a chain are those of its operands, and it repeats the ones in the middle.
theorem callsOf_linkTerms {l t : Term} {links : List (CompareOp × Term)} :
    callsOf (linkTerms l ((op, t) :: links)) = l.calls ++ (t.calls ++ callsOf (linkTerms t links)) := by
  simp [linkTerms]

theorem calls_chain {l : Term} {links : List (CompareOp × Term)} :
    (chain l links).calls = callsOf (linkTerms l links) := by
  obtain h | h := chain_cases l links
  · simp [h]
  · simp [h]

theorem calls_callTerm {ident : String} {ts : List Term} (h : ¬(ident = "bool" ∧ ∃ t, ts = [t])) :
    (callTerm ident ts).calls = callTerm ident ts :: callsOf ts := by
  obtain ⟨t, rfl, ⟨rfl, hc⟩ | ⟨rfl, hc⟩ | ⟨rfl, -⟩⟩ | ⟨-, hc⟩ := callTerm_cases ident ts
  case inl.inr.inr => exact (h ⟨rfl, t, rfl⟩).elim
  all_goals simp [hc]

-- A call in the code stands for a call in the source.
def Image (v : Verifier) (e : PyVerify.Expr) (t : Term) : Prop :=
  ∃ n, Lowers v e t n

open List (Forall₂)

-- Every call in a term stands for the one of the expression in the same place.
abbrev Matches (v : Verifier) (e : PyVerify.Expr) (t : Term) : Prop :=
  Forall₂ (Image v) (e.calls true v) t.calls

section

variable {left e : PyVerify.Expr} {links : List (CompareOp × PyVerify.Expr)} {t : Term}

theorem Matches.flatMap (h : Forall₂ (Matches v) es ts) :
    Forall₂ (Image v) (es.flatMap (Expr.calls true v)) (callsOf ts) := by
  induction h
  case nil => exact .nil
  case cons h _ hi => exact List.rel_append h hi

theorem Matches.operands {l : Term} {ts : List Term} (hl : Matches v left l)
    (hs : Forall₂ (Matches v) (links.map Prod.snd) ts) :
    Forall₂ (Image v) ((operands true left links).flatMap (Expr.calls true v))
      (callsOf (linkTerms (grouped left l) (linked links ts))) := by
  induction links generalizing left l ts
  case nil => exact .nil
  case cons link links hi =>
    cases hs
    case cons t ts h hs =>
    cases links
    case nil =>
      cases hs
      simpa [PyVerify.operands, linked, linkTerms] using List.rel_append hl h
    case cons next links =>
      have hr := List.rel_append hl (List.rel_append h (hi h hs))
      simpa [PyVerify.operands, linked, callsOf_linkTerms] using hr

theorem Matches.of_kept (hc : e.isCall v = false)
    (h : Forall₂ (Image v) ((e.kept true v).flatMap (Expr.calls true v)) t.calls) : Matches v e t := by
  unfold Matches
  rw [Expr.calls_eq]
  simpa [hc] using h

theorem Matches.of_call (hi : Image v e t) (hc : e.isCall v = true) (ht : t.calls = t :: ts)
    (h : Forall₂ (Image v) ((e.kept true v).flatMap (Expr.calls true v)) ts) : Matches v e t := by
  unfold Matches
  rw [Expr.calls_eq, ht]
  simpa [hc] using Forall₂.cons hi h

theorem Matches.of_callTerm {s z : Span} {ident : String} {n : Notes}
    (hp : v.primitive? (.name z ident) = none) (hs : LowersAll v es ts n) (hm : Forall₂ (Matches v) es ts) :
    Matches v (.call s (.name z ident) es []) (callTerm ident (es.zipWith bare ts)) := by
  have hk : Forall₂ (Image v) (((Expr.call s (.name z ident) es []).kept true v).flatMap (Expr.calls true v))
      (callsOf (es.zipWith bare ts)) := by
    simpa [Expr.kept, hp, hs.callsOf_zipWith] using Matches.flatMap hm
  by_cases hb : ident = "bool" ∧ ∃ x, es = [x]
  case pos =>
    refine .of_kept ((Expr.isCall_eq_false_iff hp).mpr hb) ?_
    obtain ⟨rfl, x, rfl⟩ := hb
    obtain _ | ⟨_, _ | _⟩ := hs
    simpa [callTerm] using hk
  case neg =>
    have hc : ¬(Expr.call s (.name z ident) es []).isCall v = false :=
      (Expr.isCall_eq_false_iff hp).not.mpr hb
    refine .of_call ⟨n, .call hp hs⟩ (by simpa using hc) (calls_callTerm ?_) hk
    rintro ⟨rfl, t, ht⟩
    refine hb ⟨rfl, ?_⟩
    have := congrArg List.length ht
    simp [hs.length_eq] at this
    exact List.length_eq_one_iff.mp this

end

mutual

theorem Lowers.matches : Lowers v e t n → Matches v e t
  | .name | .int | .float | .str | .truth | .none => .of_kept rfl .nil
  | .binary _ hl hr => by
    refine .of_kept rfl ?_
    simpa [Expr.kept, Expr.children] using List.rel_append hl.matches hr.matches
  | .unary h => by
    refine .of_kept rfl ?_
    simpa [Expr.kept, Expr.children] using h.matches
  | .junction hs => by
    refine .of_kept rfl ?_
    have := Matches.flatMap hs.matches
    simpa [Expr.kept, Expr.children, hs.callsOf_zipWith] using this
  | .compare hl hs => by
    refine .of_kept rfl ?_
    rw [calls_chain]
    exact Matches.operands hl.matches hs.matches
  | .assume hp hs => by
    refine .of_call ⟨_, .assume hp hs⟩ (by simp [Expr.isCall, hp]) rfl ?_
    simpa [Expr.kept, hp, hs.callsOf_zipWith] using Matches.flatMap hs.matches
  | .nondet hp hn hs => by
    have ha := Verifier.ne_assume_of_isNondet hn
    refine .of_call ⟨_, .nondet hp hn hs⟩ (by simp [Expr.isCall, hp]) rfl ?_
    simp [Expr.kept, hp, ha]
  | .call hp hs => .of_callTerm hp hs hs.matches
  | .attr _ h => by
    refine .of_kept rfl ?_
    simpa [Expr.kept, Expr.children] using h.matches
  | .subscript _ h hx => by
    refine .of_kept rfl ?_
    simpa [Expr.kept, Expr.children] using List.rel_append h.matches hx.matches
  | .conditional ht hb ho => by
    refine .of_kept rfl ?_
    have := List.rel_append ht.matches (List.rel_append hb.matches ho.matches)
    simpa [Expr.kept, Expr.children] using this

theorem LowersAll.matches : LowersAll v es ts n → Forall₂ (Matches v) es ts
  | .nil => .nil
  | .cons h hs => .cons h.matches hs.matches

end

end Code
end PyVerify
