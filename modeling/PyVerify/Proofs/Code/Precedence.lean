import PyVerify.Proofs.Code.Operation
import PyVerify.Proofs.Code.Parentheses

namespace PyVerify

open Code

def Constant.literal : Constant → String
  | .int value   => toString value
  | .float value => value.render Binary64.messageNotation
  | .str body    => (Term.str body).text
  | .bool value  => if value then "1" else "0"
  | .none        => "0"
  | .wideInt _ | .bytes _ | .imaginary _ | .ellipsis => ""

-- The operation that an expression of the source is, each part of it with its own operands. What has no term
-- is left blank.

mutual

def Expr.operation (v : Verifier) : Expr → Operation
  | .name _ id => .atom (identifier id)
  | .constant _ value => .atom value.literal
  | .binary _ left op right =>
    match infixOp? op with
    | some sign => .infix2 (left.operation v) sign (right.operation v)
    | none      => .atom ""
  | .unary _ op operand => .lead (.sign (signOp op)) (operand.operation v)
  | .bool _ op values => .joined (boolOp op) (operations v values)
  | .compare _ left links => .joined .and <| Operation.compared (left.operation v) (comparisons v links)
  | .call _ func args _ =>
    match v.primitive? func, func with
    | some p, _ => .call (.atom (if p = "assume" then "__ESBMC_assume" else p)) (operations v args)
    | none, .name _ id => .called id (operations v args)
    | none, _ => .atom ""
  | .attr _ value name => .member (value.operation v) name.text
  | .subscript _ value index => .index (value.operation v) (index.operation v)
  | .conditional _ test body orelse =>
    .conditional (test.operation v) (body.operation v) (orelse.operation v)
  | _ => .atom ""

def operations (v : Verifier) : List Expr → List Operation
  | []      => []
  | e :: es => e.operation v :: operations v es

def comparisons (v : Verifier) : List (CompareOp × Expr) → List (InfixOp × Operation)
  | []               => []
  | (op, e) :: links => (compareOp op, e.operation v) :: comparisons v links

end

namespace Expr

variable {v : Verifier}

-- These begin with a sign or a cast that has no parentheses around it.
def IsPrefixed (v : Verifier) : Expr → Prop
  | .unary _ op _ => op = .not
  | .call _ func@(.name _ id) args _ =>
    v.primitive? func = none ∧ args.length = 1 ∧ (id = "int" ∨ id = "float")
  | _ => False

-- The text of the expression has the operands in the places that C looks for them. What stands behind a prefix
-- belongs to the operand of the prefix, and a primitive for an arbitrary value gets no arguments.
def KeepsOperands (v : Verifier) : Expr → Prop
  | .attr _ value _ | .subscript _ value _ => ¬value.IsPrefixed v
  | .call _ func args _ => ∀ p ∈ v.primitive? func, p = "assume" ∨ args = []
  | _ => True

end Expr

namespace Code

variable {v : Verifier}

section

variable {e : Expr} {t u : Term} {ts : List Term} {es : List Expr} {n : Notes}

@[simp] theorem operation_grouped : (grouped e t).reading.operation = t.reading.operation := by
  unfold grouped
  split <;> rfl

@[simp] theorem operation_bare : (bare e t).reading.operation = t.reading.operation := by
  unfold bare
  split <;> rfl

theorem length_operations : (operations v es).length = es.length := by
  induction es <;> simp_all [operations]

theorem LowersAll.readings_zipWith {f : Expr → Term → Term}
    (hf : ∀ e t, (f e t).reading.operation = t.reading.operation) (h : LowersAll v es ts n) :
    readings (es.zipWith f ts) = readings ts := by
  rw [readings_eq, readings_eq, h.map_zipWith hf]

theorem operation_signTerm {op : UnaryOp} :
    (signTerm op t).reading.operation = .lead (.sign (signOp op)) t.reading.operation := by
  cases op <;> simp [signTerm, signOp]

theorem operation_callTerm {name : String} :
    (callTerm name ts).reading.operation = .called name (readings ts) := by
  obtain ⟨t, rfl, ⟨rfl, h⟩ | ⟨rfl, h⟩ | ⟨rfl, h⟩⟩ | ⟨hn, h⟩ := callTerm_cases name ts
  case inr =>
    obtain _ | ⟨t, _ | ⟨u, ts⟩⟩ := ts
    all_goals simp_all [readings, Operation.called, Term.reading, Reading.operation]
  case inl.inr.inr => exact h ▸ rfl
  all_goals simp [h, readings, Operation.called]

theorem LowersAll.length_readings (h : LowersAll v es ts n) : (readings ts).length = (operations v es).length := by
  rw [Code.length_readings, length_operations, h.length_eq]

-- A single link and a chain of links are read alike.
theorem operation_chain {links : List (CompareOp × Term)} :
    (chain t links).reading.operation = .joined .and (readings (linkTerms t links)) := by
  obtain h | h := chain_cases t links
  · simp [h, readings, Operation.joined]
  · simp [h, Term.reading, Reading.operation]

theorem readings_linkTerms {links : List (CompareOp × Expr)} :
    readings (linkTerms t (linked links ts)) =
      Operation.compared t.reading.operation ((links.map (compareOp ·.fst)).zip (readings ts)) := by
  induction links generalizing t ts
  case nil => rfl
  case cons link links hi =>
    cases ts
    case nil => rfl
    case cons u ts =>
      rw [linked, List.zipWith_cons_cons, linkTerms, readings, ←linked, hi, operation_infix2, operation_grouped]
      rfl

theorem comparisons_eq (links : List (CompareOp × Expr)) :
    comparisons v links = (links.map (compareOp ·.fst)).zip (operations v (links.map Prod.snd)) := by
  induction links <;> simp_all [comparisons, operations]

-- A member or an index is taken of all that stands before it only if that has no prefix.
theorem operation_member_eq_iff {x : Operation} {name : String} :
    (Term.member t name).reading.operation = .member x name ↔
      t.reading.prefixes = [] ∧ t.reading.operation = x := by
  by_cases ht : t.reading.prefixes = []
  case pos => simp [Term.reading, Reading.operation, ht]
  case neg =>
    have hm : (Term.member t name).reading.prefixes ≠ [] := by simpa [Term.reading] using ht
    obtain ⟨p, y, h⟩ := Reading.operation_lead hm
    simp [h, ht]

theorem operation_index_eq_iff {x y : Operation} :
    (Term.index t u).reading.operation = .index x y ↔
      t.reading.prefixes = [] ∧ t.reading.operation = x ∧ u.reading.operation = y := by
  by_cases ht : t.reading.prefixes = []
  case pos => simp [Term.reading, Reading.operation, ht]
  case neg =>
    have hi : (Term.index t u).reading.prefixes ≠ [] := by simpa [Term.reading] using ht
    obtain ⟨p, z, h⟩ := Reading.operation_lead hi
    simp [h, ht]

theorem prefixes_callTerm {name : String} :
    (callTerm name ts).reading.prefixes = [] ↔ ¬(ts.length = 1 ∧ (name = "int" ∨ name = "float")) := by
  obtain ⟨t, rfl, ⟨rfl, h⟩ | ⟨rfl, h⟩ | ⟨rfl, h⟩⟩ | ⟨hn, h⟩ := callTerm_cases name ts
  case inr => simpa [h, Term.reading] using fun hl => ⟨by grind, by grind⟩
  all_goals simp [h, Term.reading]

theorem prefixes_grouped (h : t.reading.prefixes = []) : (grouped e t).reading.prefixes = [] := by
  unfold grouped
  split
  case h_3 => exact h
  all_goals rfl

theorem prefixes_chain {links : List (CompareOp × Term)} : (chain t links).reading.prefixes = [] := by
  obtain h | h := chain_cases t links
  · cases links
    case nil  => cases h
    case cons => rw [←(List.cons_eq_cons.mp h).left, Term.reading]
  · rw [h, Term.reading]

theorem not_isPrefixed_call {func : Expr} {s : Span} {p : String} (hp : v.primitive? func = some p) :
    ¬(Expr.call s func es []).IsPrefixed v := by
  cases func
  case name => simp [Expr.IsPrefixed, hp]
  all_goals exact id

theorem Lowers.prefixes_ne_nil (h : Lowers v e t n) (hp : e.IsPrefixed v) :
    (grouped e t).reading.prefixes ≠ [] := by
  cases h
  case unary op _ =>
    obtain rfl : op = .not := hp
    exact List.cons_ne_nil _ _
  case assume hp' _ => exact (not_isPrefixed_call hp' hp).elim
  case nondet hp' _ _ => exact (not_isPrefixed_call hp' hp).elim
  case call hs =>
    refine prefixes_callTerm.not.mpr <| not_not_intro ?_
    simpa [hs.length_eq] using hp.right
  all_goals exact hp.elim

end

theorem Lowers.prefixes_eq_nil : Lowers v e t n → (e.Every (Expr.KeepsOperands v)) → ¬e.IsPrefixed v →
    (grouped e t).reading.prefixes = []
  | .name, _, _ | .int, _, _ | .float, _, _ | .str, _, _ | .truth, _, _ | .none, _, _ => rfl
  | .binary .., _, _ | .junction _, _, _ | .conditional .., _, _ | .assume .., _, _ | .nondet .., _, _ => rfl
  | @Lowers.unary _ _ _ _ _ op _, _, hp => by
    cases op
    case not => exact (hp rfl).elim
    all_goals rfl
  | .compare .., _, _ => prefixes_grouped prefixes_chain
  | .call hc h, _, hp => by
    refine prefixes_callTerm.mpr fun hn => hp ⟨hc, ?_⟩
    simpa [h.length_eq] using hn
  | .attr _ h, hs, _ => h.prefixes_eq_nil (hs.part <| by simp [Expr.children]) hs.self
  | .subscript _ h _, hs, _ => h.prefixes_eq_nil (hs.part <| by simp [Expr.children]) hs.self

theorem Lowers.base_iff (h : Lowers v e t n)
    (ht : t.reading.operation = e.operation v ↔ e.Every (Expr.KeepsOperands v)) :
    (grouped e t).reading.prefixes = [] ∧ t.reading.operation = e.operation v ↔
      ¬e.IsPrefixed v ∧ e.Every (Expr.KeepsOperands v) := by
  rw [ht]
  constructor
  case mp  => exact fun ⟨hn, hs⟩ => ⟨fun hp => h.prefixes_ne_nil hp hn, hs⟩
  case mpr => exact fun ⟨hp, hs⟩ => ⟨h.prefixes_eq_nil hs hp, hs⟩

theorem every_name {s : Span} {name : String} : (Expr.name s name).Every (Expr.KeepsOperands v) :=
  (Expr.every_leaf_iff rfl).mpr trivial

theorem every_of_primitive {func : Expr} {p : String} (hp : v.primitive? func = some p) :
    func.Every (Expr.KeepsOperands v) := by
  unfold Verifier.primitive? at hp
  split at hp
  case h_1 => exact Expr.every_iff.mpr ⟨id, fun x hx => List.mem_singleton.mp hx ▸ every_name⟩
  case h_2 => exact every_name
  case h_3 => cases hp

theorem LowersAll.compared_inj {links : List (CompareOp × Expr)} {x y : Operation} (hn : links ≠ [])
    (h : LowersAll v (links.map Prod.snd) ts n) :
    Operation.compared x ((links.map (compareOp ·.fst)).zip (readings ts)) =
        Operation.compared y (comparisons v links) ↔
      x = y ∧ readings ts = operations v (links.map Prod.snd) := by
  have hl := h.length_readings
  have ho : (readings ts).length = links.length := by simpa [length_operations] using hl
  have hz : (links.map (compareOp ·.fst)).zip (readings ts) ≠ [] := by
    have : readings ts ≠ [] := by
      rw [Ne, ←List.length_eq_zero_iff, ho]
      simpa using hn
    simp [hn, this]
  rw [comparisons_eq, Operation.compared_inj hz]
  refine and_congr_right fun _ => ⟨fun he => ?_, congrArg _⟩
  have := congrArg (List.map Prod.snd) he
  rwa [List.map_snd_zip (by simp [ho]), List.map_snd_zip (by simp [length_operations])] at this

mutual

theorem Lowers.operation_eq_iff : Lowers v e t n → e.Every (Expr.IsSpelled v) →
    (t.reading.operation = e.operation v ↔ e.Every (Expr.KeepsOperands v))
  | .name, _ | .int, _ | .float, _ | .str, _ | .none, _ =>
    iff_of_true rfl <| (Expr.every_leaf_iff rfl).mpr trivial
  | @Lowers.truth _ _ b, _ => by
    refine iff_of_true ?_ <| (Expr.every_leaf_iff rfl).mpr trivial
    cases b <;> rfl
  | .binary ho hl hr, hs => by
    have hl := hl.operation_eq_iff <| hs.part <| by simp [Expr.children]
    have hr := hr.operation_eq_iff <| hs.part <| by simp [Expr.children]
    rw [Expr.every_iff]
    simp [Expr.operation, ho, hl, hr, Expr.children, Expr.KeepsOperands]
  | .unary h, hs => by
    have h := h.operation_eq_iff <| hs.part <| by simp [Expr.children]
    rw [Expr.every_iff]
    simp [Expr.operation, operation_signTerm, h, Expr.children, Expr.KeepsOperands]
  | .junction h, hs => by
    have ha := h.operations_eq_iff fun _ hx => hs.part hx
    rw [Expr.every_iff]
    simp [Expr.operation, h.readings_zipWith, Operation.joined_inj h.length_readings, ha, Expr.children,
      Expr.KeepsOperands]
  | .compare h hl, hs => by
    have ha := hl.operations_eq_iff fun _ hx => hs.part <| List.mem_cons_of_mem _ hx
    have h := h.operation_eq_iff <| hs.part List.mem_cons_self
    rw [Expr.every_iff, Expr.operation, operation_chain, readings_linkTerms, operation_grouped]
    rw [Operation.joined_inj (by simp [Operation.length_compared, comparisons_eq, hl.length_readings]),
      hl.compared_inj hs.self, h, ha]
    simp [Expr.children, Expr.KeepsOperands]
  | .assume hp h, hs => by
    have ha := h.operations_eq_iff fun x hx => hs.part <| by simp [Expr.children, hx]
    rw [Expr.every_iff]
    simp [Expr.operation, hp, h.readings_zipWith, ha, Expr.children, Expr.KeepsOperands, every_of_primitive hp]
  | @Lowers.nondet _ _ _ es _ _ _ hp hn h, hs => by
    have hne := Verifier.ne_assume_of_isNondet hn
    rw [Expr.every_iff]
    simp [Expr.operation, Expr.children, Expr.KeepsOperands, hp, hne, every_of_primitive hp, readings]
    cases es <;> simp [operations]
  | .call hp h, hs => by
    have ha := h.operations_eq_iff fun x hx => hs.part <| by simp [Expr.children, hx]
    rw [Expr.every_iff]
    simp [Expr.operation, Expr.children, Expr.KeepsOperands, hp, operation_callTerm, Operation.called_inj,
      h.readings_zipWith, ha, every_name]
  | .attr _ h, hs => by
    have hb := h.base_iff <| h.operation_eq_iff <| hs.part <| by simp [Expr.children]
    rw [Expr.every_iff]
    simp [Expr.operation, Expr.children, Expr.KeepsOperands, operation_member_eq_iff, hb]
  | .subscript _ h hx, hs => by
    have hb := h.base_iff <| h.operation_eq_iff <| hs.part <| by simp [Expr.children]
    have hx := hx.operation_eq_iff <| hs.part <| by simp [Expr.children]
    rw [Expr.every_iff]
    simp [Expr.operation, Expr.children, Expr.KeepsOperands, operation_index_eq_iff, ←and_assoc, hb, hx]
  | .conditional ht hb ho, hs => by
    have ht := ht.operation_eq_iff <| hs.part <| by simp [Expr.children]
    have hb := hb.operation_eq_iff <| hs.part <| by simp [Expr.children]
    have ho := ho.operation_eq_iff <| hs.part <| by simp [Expr.children]
    rw [Expr.every_iff]
    simp [Expr.operation, ht, hb, ho, Expr.children, Expr.KeepsOperands]

theorem LowersAll.operations_eq_iff : LowersAll v es ts n → (∀ e ∈ es, e.Every (Expr.IsSpelled v)) →
    (readings ts = operations v es ↔ ∀ e ∈ es, e.Every (Expr.KeepsOperands v))
  | .nil, _ => by simp [readings, operations]
  | .cons h ha, hs => by
    rw [List.forall_mem_cons] at hs
    simp [readings, operations, h.operation_eq_iff hs.left, ha.operations_eq_iff hs.right]

end

theorem read?_text {t : Term} (he : t.IsExpression) (hw : t.Written) : read? t.text = some t.reading.operation := by
  have hl : lex t.text.toList = t.tokens := by simpa using hw.lexes apart_nil
  obtain ⟨gs, x, hr, hx⟩ : Reads 0 t.tokens [] _ := he.reads (by simp [Fresh])
  simp [read?, hl, hr, Reader.result?, hx]

-- C finds the operands of an expression in its text where the source has them, exactly if nothing in it has a
-- member or an index taken of a bare prefix, or a primitive given arguments that it does not take.
theorem grouping_kept_iff {e : Expr} {t : Term} {n : Notes} (hs : e.Every (Expr.IsSpelled v))
    (h : lower v e = Except.ok (t, n) ∨ lowerBare v e = Except.ok (t, n) ∨ lowerOpen v e = Except.ok (t, n)) :
    read? t.text = some (e.operation v) ↔ e.Every (Expr.KeepsOperands v) := by
  have ht : ∃ u, Lowers v e u n ∧ (t = grouped e u ∨ t = bare e u ∨ t = u) := by
    obtain h | h | h := h
    · obtain ⟨u, hu, rfl⟩ := lower_eq_ok_iff.mp h
      exact ⟨u, hu, .inl rfl⟩
    · obtain ⟨u, hu, rfl⟩ := lowerBare_eq_ok_iff.mp h
      exact ⟨u, hu, .inr <| .inl rfl⟩
    · exact ⟨t, lowerOpen_eq_ok_iff.mp h, .inr <| .inr rfl⟩
  obtain ⟨u, hu, ht⟩ := ht
  have hf := hu.fits hs
  have hr : read? t.text = some u.reading.operation := by
    obtain rfl | rfl | rfl := ht
    · rw [read?_text (.operand hf.operand) hf.grouped_written, operation_grouped]
    · rw [read?_text hf.bare_expression hf.bare_written, operation_bare]
    · exact read?_text hf.expression hf.written
  rw [hr, Option.some_inj, hu.operation_eq_iff hs]

-- The expression `int(a < b) - xs[i]`.
def difference : Expr :=
  .binary ⟨0, 18⟩
    (.call ⟨0, 10⟩ (.name ⟨0, 3⟩ "int")
      [.compare ⟨4, 5⟩ (.name ⟨4, 1⟩ "a") [(.lt, .name ⟨8, 1⟩ "b")]] [])
    .sub
    (.subscript ⟨13, 5⟩ (.name ⟨13, 2⟩ "xs") (.name ⟨16, 1⟩ "i"))

theorem difference_every : difference.Every fun x => x.IsSpelled .none ∧ x.KeepsOperands .none := by
  have hn {s : Span} {name : String} (h : isIdentifier (identifier name)) :
      (Expr.name s name).Every fun x => x.IsSpelled .none ∧ x.KeepsOperands .none :=
    (Expr.every_leaf_iff rfl).mpr ⟨h, trivial⟩
  have hp {P : Expr → Prop} {x y : Expr} (hx : P x) (hy : P y) : ∀ z ∈ [x, y], P z := by simp [hx, hy]
  refine Expr.every_iff.mpr ⟨⟨trivial, trivial⟩, hp ?left ?right⟩
  case left =>
    have hc : Verifier.none.primitive? (.name ⟨0, 3⟩ "int") = none := rfl
    refine Expr.every_iff.mpr ⟨by simp [Expr.IsSpelled, Expr.KeepsOperands, hc], hp (hn <| by decide) ?_⟩
    exact Expr.every_iff.mpr ⟨⟨List.cons_ne_nil _ _, trivial⟩, hp (hn <| by decide) (hn <| by decide)⟩
  case right => exact Expr.every_iff.mpr ⟨⟨trivial, id⟩, hp (hn <| by decide) (hn <| by decide)⟩

theorem difference_kept :
    ∃ t n, lower .none difference = Except.ok (t, n) ∧ t.text = "((int)(a < b) - xs[i])" ∧
      read? t.text = some (difference.operation .none) := by
  have hs : difference.Every (Expr.IsSpelled .none) := difference_every.imp And.left
  refine ⟨_, _, rfl, by decide +kernel, (grouping_kept_iff hs <| .inl rfl).mpr ?_⟩
  exact difference_every.imp And.right

-- The expression `(not x).a`, whose text is `!(x)->a`.
def negated : Expr :=
  .attr ⟨0, 9⟩ (.unary ⟨1, 5⟩ .not (.name ⟨5, 1⟩ "x")) ⟨"a", ⟨8, 1⟩⟩

theorem negated_spelled : negated.Every (Expr.IsSpelled .none) := by
  refine Expr.every_iff.mpr ⟨(by decide : isIdentifier "a"), List.forall_mem_singleton.mpr ?_⟩
  refine Expr.every_iff.mpr ⟨trivial, List.forall_mem_singleton.mpr ?_⟩
  exact (Expr.every_leaf_iff rfl).mpr (by decide : isIdentifier "x")

theorem negated_regrouped : ¬∀ (v : Verifier) (e : Expr) (t : Term) (n : Notes),
    e.Every (Expr.IsSpelled v) → lower v e = Except.ok (t, n) → read? t.text = some (e.operation v) := by
  intro h
  have hl : Lowers .none negated _ _ := .attr (by decide) (.unary .name)
  have hf := hl.fits negated_spelled
  have hr := read?_text (.operand hf.operand) hf.grouped_written
  have ho := h .none negated _ _ negated_spelled <| lower_eq_ok_iff.mpr ⟨_, hl, rfl⟩
  cases hr.symm.trans ho

end Code
end PyVerify
