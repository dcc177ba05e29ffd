import PyVerify.Code.Artifact
import PyVerify.Proofs.Code.Assembly
import PyVerify.Proofs.Code.Evaluation
import PyVerify.Proofs.Parser.Accepted
import PyVerify.Proofs.Parser.Concatenation
import PyVerify.Proofs.Profile.Distinct

namespace PyVerify.Code

-- What an operation in C has to be checked for.
def InfixOp.checks : InfixOp → List Check
  | .add | .sub | .mul  => [.overflow]
  | .div | .mod         => [.divByZero]
  | _                   => []

-- The checks of all operations in a term.

mutual

def Term.checks : Term → List Check
  | .ident _ | .int _ | .float _ | .str _ => []
  | .infix2 left op right         => op.checks ++ (left.checks ++ right.checks)
  | .joined op operands           => op.checks ++ checksOfAll operands
  | .sign _ t | .paren t | .cast _ t => t.checks
  | .conditional test body orelse => test.checks ++ (body.checks ++ orelse.checks)
  | .call _ args                  => checksOfAll args
  | .index base index             => .bounds :: (base.checks ++ index.checks)
  | .member base _                => .pointer :: base.checks

def checksOfAll : List Term → List Check
  | []      => []
  | t :: ts => t.checks ++ checksOfAll ts

end

attribute [simp] Term.checks checksOfAll

def Condition.terms : Condition → List Term
  | .term t         => [t]
  | .unsupported _  => []

-- The step from one round of a loop to the next is no operation of the source.
def RangeHeader.terms (h : RangeHeader) : List Term :=
  h.start :: h.stop :: h.step.toList

-- The terms in a piece of code. An assignment with an operator does what its operation does.

mutual

def Stmt.terms : Stmt → List Term
  | .declare _ _ (some t) | .term t | .return t => [t]
  | .assign target value      => [target, value]
  | .augment target op value  => [.infix2 target op value]
  | .while test body          => test.terms ++ blockTerms body
  | .if branches orelse       => branchTerms branches ++ orelseTerms orelse
  | .forRange header body     => header.terms ++ blockTerms body
  | .declare _ _ none | .returnUnsupported | .break | .continue | .placeholder _ => []

def blockTerms : List Stmt → List Term
  | []      => []
  | s :: ss => s.terms ++ blockTerms ss

def branchTerms : List (Condition × List Stmt) → List Term
  | []                    => []
  | (test, body) :: rest  => test.terms ++ (blockTerms body ++ branchTerms rest)

def orelseTerms : Option (List Stmt) → List Term
  | none      => []
  | some body => blockTerms body

end

def Definition.terms : Definition → List Term
  | .function f     => blockTerms f.body
  | .placeholder _  => []

def Program.terms (p : Program) : List Term :=
  p.definitions.flatMap Definition.terms ++ blockTerms p.main

def Program.checks (p : Program) : List Check :=
  checksOfAll p.terms

end PyVerify.Code

namespace PyVerify

open Code

namespace Expr

variable {v : Verifier} {x e : Expr}

-- The parts of an expression that have to have terms of their own for it to have one.
def lowered : Expr → List Expr
  | .call _ _ args _  => args
  | e                 => e.children

-- The arguments of a primitive for an arbitrary value. Their terms are found, but not written down.
def ignored (v : Verifier) : Expr → List Expr
  | .call _ func args _ => if (v.primitive? func).any Verifier.isNondet then args else []
  | _                   => []

theorem lowered_subset_children (h : x ∈ e.lowered) : x ∈ e.children := by
  unfold lowered at h
  split at h
  case h_1 => simp [children, h]
  case h_2 => exact h

-- Everything in an expression that has a term without a place in the code.
def discarded (v : Verifier) (e : Expr) : List Expr :=
  e.ignored v ++ e.lowered.attach.flatMap fun ⟨x, h⟩ =>
    have := sizeOf_lt_of_mem_children (lowered_subset_children h)
    x.discarded v
termination_by sizeOf e

theorem discarded_eq (e : Expr) : e.discarded v = e.ignored v ++ e.lowered.flatMap (discarded v) := by
  rw [discarded]
  simp

end Expr

-- Expressions that become code together, if each of them has a term.
def Code.whole (v : Verifier) (es : List Expr) : List Expr :=
  if es.all (lowerable v) then es else []

-- The expressions of a statement that become code.

mutual

def Stmt.lowered (v : Verifier) : Stmt → List Expr
  | .return _ (some e)                      => whole v [e]
  | .assign _ targets e                     => if targets.any isUnpacking then [] else whole v (e :: targets)
  | .annAssign _ target _ (some e)          => whole v [e, target]
  | .augAssign _ target op e                => if (infixOp? op).isSome then whole v [target, e] else []
  | .expr _ (.constant _ (.str _))          => []
  | .expr _ (.call _ (.name _ "print") _ _) => []
  | .expr _ e                               => whole v [e]
  | .assert _ test _                        => whole v [test]
  | .if _ test block other                  => whole v [test] ++ (Block.lowered v block ++ Block.lowered v other)
  | .while _ test block _                   => whole v [test] ++ Block.lowered v block
  | .for _ _ (.name ..) iter block _        =>
    match rangeArgs? iter with
    | some args => if args.all (lowerable v) then args ++ Block.lowered v block else []
    | none      => []
  | _ => []

def Block.lowered (v : Verifier) : List Stmt → List Expr
  | []      => []
  | s :: ss => s.lowered v ++ Block.lowered v ss

end

-- The statements that become code of the program, below a top-level one.
def Stmt.translated : Stmt → List Stmt
  | .functionDef _ _ false _ _ _ block => block
  | s => mainBlock s

def Module.discarded (m : Module) : List Expr :=
  (m.body.flatMap fun s => Block.lowered (.ofModule m) s.translated).flatMap (Expr.discarded (.ofModule m))

namespace Code

variable {v : Verifier} {c : Check}

-- An operation of one of these expressions has the check.
def Lost (v : Verifier) (es : List PyVerify.Expr) (c : Check) : Prop :=
  ∃ x ∈ es, ∃ t, Image v x t ∧ c ∈ t.checks

-- The check is noted just if an operation in these terms has it, or one that gets lost with these expressions.
def Accounts (v : Verifier) (c : Check) (n : Notes) (ts : List Term) (es : List PyVerify.Expr) : Prop :=
  c ∈ n.checks ↔ c ∈ checksOfAll ts ∨ Lost v (es.flatMap (Expr.discarded v)) c

section

variable {e x : PyVerify.Expr} {es fs : List PyVerify.Expr} {t u : Term} {ts us : List Term} {m n : Notes}

@[simp] theorem checksOfAll_append : checksOfAll (ts ++ us) = checksOfAll ts ++ checksOfAll us := by
  induction ts <;> simp_all

@[simp] theorem not_lost_nil : ¬Lost v [] c := by
  simp [Lost]

@[simp] theorem lost_append : Lost v (es ++ fs) c ↔ Lost v es c ∨ Lost v fs c := by
  simp only [Lost, List.mem_append]
  grind

theorem Lowers.unique (h : Lowers v e t m) (h' : Lowers v e u n) : t = u := by
  have := h.lowerOpen_eq.symm.trans h'.lowerOpen_eq
  cases this
  rfl

theorem LowersAll.lost_iff (h : LowersAll v es ts n) : Lost v es c ↔ c ∈ checksOfAll ts := by
  induction es generalizing ts n
  all_goals cases h
  case nil => simp
  case cons e es hi t m ts n h hs =>
    have he : Lost v [e] c ↔ c ∈ t.checks := by
      simp only [Lost, List.mem_singleton, exists_eq_left, Image]
      constructor
      case mp   => rintro ⟨_, ⟨_, hu⟩, hc⟩; exact h.unique hu ▸ hc
      case mpr  => exact fun hc => ⟨t, ⟨_, h⟩, hc⟩
    rw [← List.singleton_append, lost_append, he, hi hs]
    simp

namespace Accounts

theorem nil : Accounts v c .none [] [] := by
  simp [Accounts, Notes.none]

theorem append (h : Accounts v c m ts es) (hs : Accounts v c n us fs) :
    Accounts v c (m ++ n) (ts ++ us) (es ++ fs) := by
  simp only [Accounts, Notes.checks_append, checksOfAll_append, List.flatMap_append, lost_append, List.mem_append]
    at h hs ⊢
  grind

theorem mapped (h : Accounts v c n ts es) (hm : c ∈ checksOfAll us ↔ c ∈ checksOfAll ts) :
    Accounts v c n us es := by
  rwa [Accounts, hm]

-- An operation notes its check besides those of its operands.
theorem note (h : Accounts v c n ts es) (ht : c ∈ t.checks ↔ c ∈ m.checks ∨ c ∈ checksOfAll ts) :
    Accounts v c (m ++ n) [t] es := by
  simp only [Accounts, Notes.checks_append, List.mem_append, checksOfAll, List.append_nil, ht] at h ⊢
  rw [h, or_assoc]

-- An expression without ignored arguments loses what its parts lose.
theorem enclose (h : Accounts v c n ts e.lowered) (hi : e.ignored v = []) : Accounts v c n ts [e] := by
  simpa [Accounts, Expr.discarded_eq e, hi] using h

theorem wrap (hi : e.ignored v = []) (h : Accounts v c n ts e.lowered) (ht : c ∈ t.checks ↔ c ∈ checksOfAll ts) :
    Accounts v c n [t] [e] :=
  (h.enclose hi).mapped (by simp [ht])

theorem operation (hi : e.ignored v = []) (h : Accounts v c n ts e.lowered)
    (ht : c ∈ t.checks ↔ c ∈ m.checks ∨ c ∈ checksOfAll ts) : Accounts v c (m ++ n) [t] [e] :=
  (h.enclose hi).note ht

end Accounts

@[simp] theorem checks_grouped : (grouped e t).checks = t.checks := by
  unfold grouped
  split <;> simp

@[simp] theorem checks_bare : (bare e t).checks = t.checks := by
  unfold bare
  split <;> simp

@[simp] theorem checks_signTerm {op : UnaryOp} : (signTerm op t).checks = t.checks := by
  cases op <;> simp [signTerm]

@[simp] theorem checks_boolOp {op : BoolOp} : (boolOp op).checks = [] := by
  cases op <;> rfl

@[simp] theorem checks_compareOp {op : CompareOp} : (compareOp op).checks = [] := by
  cases op <;> rfl

@[simp] theorem checksOfAll_map_paren : checksOfAll (ts.map .paren) = checksOfAll ts := by
  induction ts <;> simp_all

theorem checksOf_infixOp? {op : BinaryOp} {sign : InfixOp} (h : infixOp? op = some sign) :
    checksOf op = sign.checks := by
  cases op <;> cases h <;> rfl

theorem checksOfAll_eq : checksOfAll ts = (ts.map Term.checks).flatten := by
  induction ts <;> simp_all

theorem LowersAll.checksOfAll_zipWith {f : PyVerify.Expr → Term → Term} (hf : ∀ e t, (f e t).checks = t.checks)
    (h : LowersAll v es ts n) : checksOfAll (es.zipWith f ts) = checksOfAll ts := by
  rw [checksOfAll_eq, checksOfAll_eq, h.map_zipWith hf]

-- Each operand of a comparison stands in one of its links, as there is one.
theorem mem_checksOfAll_linkTerms {links : List (CompareOp × Term)} (h : links ≠ []) :
    c ∈ checksOfAll (linkTerms t links) ↔ c ∈ t.checks ∨ c ∈ checksOfAll (links.map Prod.snd) := by
  induction links generalizing t
  case nil => exact absurd rfl h
  case cons link links hi =>
    cases links
    case nil => simp [linkTerms]
    case cons next links =>
      have hn := hi (t := link.snd) (by simp)
      simp only [linkTerms, checksOfAll, Term.checks, checks_compareOp, List.map, List.nil_append,
        List.mem_append] at hn ⊢
      grind

theorem mem_checks_chain {links : List (CompareOp × Term)} (h : links ≠ []) :
    c ∈ (chain t links).checks ↔ c ∈ t.checks ∨ c ∈ checksOfAll (links.map Prod.snd) := by
  rw [← mem_checksOfAll_linkTerms h]
  obtain hc | hc := chain_cases t links
  · simp [hc]
  · simp [hc, InfixOp.checks]

theorem linked_ne_nil {s : Span} {links : List (CompareOp × PyVerify.Expr)}
    (hw : (PyVerify.Expr.compare s e links).WellFormed) (h : LowersAll v (links.map Prod.snd) ts n) :
    linked links ts ≠ [] := by
  have hl := h.length_eq
  have hp : 1 ≤ links.length := by simpa using hw.right
  intro he
  have := congrArg List.length he
  simp only [linked, List.length_zipWith, List.length_map, List.length_nil] at this hl
  omega

theorem checks_callTerm {ident : String} : (callTerm ident ts).checks = checksOfAll ts := by
  obtain ⟨t, rfl, ⟨rfl, hc⟩ | ⟨rfl, hc⟩ | ⟨rfl, hc⟩⟩ | ⟨-, hc⟩ := callTerm_cases ident ts
  all_goals simp [hc, InfixOp.checks]

theorem Expr.ignored_assume {s : Span} {func : PyVerify.Expr} {keywords : List (KeywordArg PyVerify.Expr)}
    (hp : v.primitive? func = some "assume") : (PyVerify.Expr.call s func es keywords).ignored v = [] := by
  simp only [PyVerify.Expr.ignored, hp]
  rfl

end

-- The operations of an expression that has a term are in this term or get lost.

mutual

theorem Lowers.accounts {c : Check} : Lowers v e t n → e.Every Expr.WellFormed → Accounts v c n [t] [e]
  | .name, _ | .int, _ | .float, _ | .str, _ | .truth, _ | .none, _ => .wrap rfl .nil (by simp)
  | .binary ho hl hr, hw => by
    have hl := hl.accounts (c := c) (hw.part <| by simp [Expr.children])
    have hr := hr.accounts (c := c) (hw.part <| by simp [Expr.children])
    exact .operation rfl (hl.append hr) (by simp [checksOf_infixOp? ho])
  | .unary h, hw => .wrap rfl (h.accounts <| hw.part List.mem_cons_self) (by simp)
  | .junction hs, hw => .wrap rfl (hs.accounts fun _ => hw.part) (by simp [hs.checksOfAll_zipWith])
  | .compare hl hs, hw => by
    have hl := hl.accounts (c := c) (hw.part List.mem_cons_self)
    have ha := hs.accounts (c := c) fun x hx => hw.part <| List.mem_cons_of_mem _ hx
    have hn := linked_ne_nil hw.self hs
    exact .wrap rfl (hl.append ha) (by simp [mem_checks_chain hn, map_snd_linked, hs.checksOfAll_zipWith])
  | .assume hp hs, hw =>
    .wrap (Expr.ignored_assume hp) (hs.accounts fun x hx => hw.part <| by simp [Expr.children, hx])
      (by simp [hs.checksOfAll_zipWith])
  | .nondet hp hn hs, hw => by
    have h := hs.accounts (c := c) fun x hx => hw.part <| by simp [Expr.children, hx]
    simpa [Accounts, Expr.discarded_eq (.call ..), Expr.ignored, Expr.lowered, hp, hn, hs.lost_iff] using h
  | .call hp hs, hw =>
    .wrap (by simp [Expr.ignored, hp]) (hs.accounts fun x hx => hw.part <| by simp [Expr.children, hx])
      (by simp [checks_callTerm, hs.checksOfAll_zipWith])
  | .attr _ h, hw => .operation rfl (h.accounts <| hw.part List.mem_cons_self) (by simp)
  | .subscript _ h hx, hw => by
    have h := h.accounts (c := c) (hw.part <| by simp [Expr.children])
    have hx := hx.accounts (c := c) (hw.part <| by simp [Expr.children])
    exact .operation rfl (h.append hx) (by simp)
  | .conditional ht hb ho, hw => by
    have ht := ht.accounts (c := c) (hw.part <| by simp [Expr.children])
    have hb := hb.accounts (c := c) (hw.part <| by simp [Expr.children])
    have ho := ho.accounts (c := c) (hw.part <| by simp [Expr.children])
    exact .wrap rfl (ht.append <| hb.append ho) (by simp)

theorem LowersAll.accounts {c : Check} : LowersAll v es ts n → (∀ e ∈ es, e.Every Expr.WellFormed) →
    Accounts v c n ts es
  | .nil, _ => .nil
  | .cons h hs, hw =>
    (h.accounts (hw _ List.mem_cons_self)).append (hs.accounts fun e he => hw e (List.mem_cons_of_mem _ he))

end

-- All nodes of a statement are as the parser leaves them.
def Formed (s : PyVerify.Stmt) : Prop :=
  ∀ k, Within k (.stmt s) → k.WellFormed

namespace Formed

variable {s t : PyVerify.Stmt} {x : PyVerify.Expr}

theorem self (h : Formed s) : s.WellFormed :=
  h (.stmt s) .refl

theorem expr (h : Formed s) (hx : x ∈ s.exprs) : x.Every Expr.WellFormed :=
  fun y hy => h (.expr y) <| within_stmt_expr_iff.mpr <| .inl ⟨x, hx, hy⟩

theorem child (h : Formed s) (ht : t ∈ s.children) : Formed t :=
  fun _ hk => h _ <| .tail hk <| part_stmt_stmt_iff.mpr ht

end Formed

section

variable {e : PyVerify.Expr} {es : List PyVerify.Expr} {t : Term} {ts : List Term} {m n : Notes} {σ τ : Scope}
  {code : List Stmt}

@[simp] theorem blockTerms_append {more : List Stmt} :
    blockTerms (code ++ more) = blockTerms code ++ blockTerms more := by
  induction code <;> simp_all [blockTerms]

@[simp] theorem blockTerms_loopElse {other : List PyVerify.Stmt} : blockTerms (loopElse other) = [] := by
  unfold loopElse
  split <;> rfl

theorem whole_of_all (h : es.all (lowerable v)) : whole v es = es :=
  if_pos h

theorem whole_single (h : Lowers v e t n) : whole v [e] = [e] :=
  whole_of_all (by simp [Image.lowerable ⟨n, h⟩])

theorem whole_eq_nil {cause : Unsupported} (he : e ∈ es) (h : Fails v e cause) : whole v es = [] :=
  if_neg fun ha => h.not_lowerable <| List.all_eq_true.mp ha e he

theorem Tests.accounts {test : Condition} (h : Tests v e test n) (hw : e.Every Expr.WellFormed) :
    Accounts v c n test.terms (whole v [e]) := by
  cases h
  case term h =>
    rw [whole_single h]
    exact (h.accounts hw).mapped (by simp [Condition.terms])
  case unsupported h =>
    rw [whole_eq_nil List.mem_cons_self h]
    exact .nil

theorem Places.accounts {p : Option Term} (h : Places v e p n) (hw : e.Every Expr.WellFormed) :
    Accounts v c n p.toList [e] := by
  cases h
  case name =>
    have hn := (Lowers.name (v := v)).accounts (c := c) hw
    exact hn.mapped (by simp)
  case term h => exact (h.accounts hw).mapped (by simp)

theorem PlacesAll.accounts {ps : List (Option Term)} (h : PlacesAll v es ps n)
    (hw : ∀ e ∈ es, e.Every Expr.WellFormed) : Accounts v c n (ps.flatMap Option.toList) es := by
  induction h
  case nil => exact .nil
  case cons h _ hi =>
    have hf := h.accounts (c := c) (hw _ List.mem_cons_self)
    exact hf.append (hi fun e he => hw e <| List.mem_cons_of_mem _ he)

theorem Assigns.mem_checks {type : CType} {value : Term} {p : Option Term} (h : Assigns type value e p σ code τ) :
    c ∈ checksOfAll (blockTerms code) ↔ c ∈ value.checks ∨ c ∈ checksOfAll p.toList := by
  cases h <;> simp [blockTerms, Stmt.terms, or_comm]

-- The value is written down for each target, and so at least once.
theorem AssignsAll.mem_checks {type : CType} {value : Term} {ps : List (Option Term)} (hn : es ≠ [])
    (h : AssignsAll type value es ps σ code τ) :
    c ∈ checksOfAll (blockTerms code) ↔ c ∈ value.checks ∨ c ∈ checksOfAll (ps.flatMap Option.toList) := by
  induction h
  case nil => exact absurd rfl hn
  case cons es _ _ _ _ hf hs hi =>
    have hf := hf.mem_checks (c := c)
    cases hs
    case nil => simpa [blockTerms] using hf
    case cons =>
      have hi := hi (by simp)
      simp only [blockTerms_append, List.flatMap_cons, checksOfAll_append, List.mem_append] at hf hi ⊢
      grind

theorem checks_assertTerm {message : Option PyVerify.Expr} : (assertTerm v t message).checks = t.checks := by
  unfold assertTerm
  split <;> simp

theorem RangeHeader.mem_checks {ident : String} {args : List PyVerify.Expr} {header : RangeHeader}
    (h : rangeHeader? ident args ts = some header) :
    c ∈ checksOfAll header.terms ↔ c ∈ checksOfAll ts := by
  revert h
  fun_cases rangeHeader? ident args ts
  all_goals
    intro h
    cases h
    try simp [terms]

theorem Ranges.accounts {target iter : PyVerify.Expr} {declaration : List Stmt} {header : RangeHeader}
    (h : Ranges v target iter σ declaration header n τ) (hw : iter.Every Expr.WellFormed) :
    ∃ z ident args, target = .name z ident ∧ rangeArgs? iter = some args ∧ args.all (lowerable v) ∧
      blockTerms declaration = [] ∧ Accounts v c n header.terms args := by
  obtain ⟨hr, ha, hh, hd⟩ := h
  refine ⟨_, _, _, rfl, hr, all_lowerable ha.images, by cases hd <;> rfl, ?_⟩
  have hs := ha.accounts (c := c) fun x hx => hw.part (mem_children_of_rangeArgs? hr hx)
  exact hs.mapped (by rw [RangeHeader.mem_checks hh, ha.checksOfAll_zipWith fun _ _ => checks_grouped])

theorem lowered_expr {s : Span} (h : ¬Silent (.expr s e)) : (Stmt.expr s e).lowered v = whole v [e] := by
  have ht : ∀ z body, e ≠ .constant z (.str body) := fun _ _ he => h (he ▸ .text)
  have hp : ∀ z y args keywords, e ≠ .call z (.name y "print") args keywords :=
    fun _ _ _ _ he => h (he ▸ .print)
  unfold Stmt.lowered
  split
  all_goals simp_all

theorem Rejects.lowered_eq {s : PyVerify.Stmt} {what : Placeholder} (h : Rejects v s what) : s.lowered v = [] := by
  cases h
  case kind h             => cases h <;> rfl
  case unpacking h        => simp [Stmt.lowered, h]
  case value hu h         => simp [Stmt.lowered, hu, whole_eq_nil _ h]
  case target hu ht h     => simp [Stmt.lowered, hu, whole_eq_nil (List.mem_cons_of_mem _ ht) h]
  case annotatedValue h   => simp [Stmt.lowered, whole_eq_nil _ h]
  case annotatedTarget h  => simp [Stmt.lowered, whole_eq_nil _ h]
  case augment h          => simp [Stmt.lowered, h]
  case augmentedTarget h  => simp [Stmt.lowered, whole_eq_nil _ h]
  case augmentedValue h   => simp [Stmt.lowered, whole_eq_nil _ h]
  case expr hs h          => simp [lowered_expr hs, whole_eq_nil List.mem_cons_self h]
  case assert h           => simp [Stmt.lowered, whole_eq_nil List.mem_cons_self h]
  case loopTarget target _ _ _ _ _ h => cases target <;> first | rfl | exact absurd rfl (h _ _)
  case loopIterable h     => simp [Stmt.lowered, h]
  case bound hr ha h =>
    have hl := List.all_eq_true.not.mpr fun hl => h.not_lowerable (hl _ ha)
    simp [Stmt.lowered, hr, hl]

end

mutual

theorem Emits.accounts {c : Check} :
    Emits v s σ code n τ → Formed s → Accounts v c n (blockTerms code) (s.lowered v)
  | .silent h, _ => by cases h <;> exact .nil
  | .placeholder h, _ => by
    rw [h.lowered_eq]
    exact .nil
  | .break, _ | .continue, _ | .returnZero, _ => by exact .nil
  | .return h, hw => by
    simp only [Stmt.lowered, whole_single h]
    exact h.accounts <| hw.expr List.mem_cons_self
  | .returnUnsupported h, _ => by
    simp only [Stmt.lowered, whole_eq_nil List.mem_cons_self h]
    exact .nil
  | .assign hu h hp ha, hw => by
    have hv := h.accounts (c := c) (hw.expr <| by simp [Stmt.exprs])
    have ht := hp.accounts (c := c) fun x hx => hw.expr <| by simp [Stmt.exprs, hx]
    rw [Stmt.lowered, if_neg hu, whole_of_all (by simp [Image.lowerable ⟨_, h⟩, hp.all_lowerable])]
    exact (hv.append ht).mapped (by simp [ha.mem_checks hw.self.left])
  | .annAssign h hp ha, hw => by
    have hv := h.accounts (c := c) (hw.expr <| by simp [Stmt.exprs])
    have ht := hp.accounts (c := c) (hw.expr <| by simp [Stmt.exprs])
    rw [Stmt.lowered, whole_of_all (by simp [Image.lowerable ⟨_, h⟩, hp.lowerable])]
    exact (hv.append ht).mapped (by simp [ha.mem_checks])
  | .typed hd, _ => by cases hd <;> exact .nil
  | .typedPlace _, _ => .nil
  | .augAssign ho ht h, hw => by
    have ht' := ht.accounts (c := c) (hw.expr <| by simp [Stmt.exprs])
    have h' := h.accounts (c := c) (hw.expr <| by simp [Stmt.exprs])
    have hl := whole_of_all (all_lowerable <| LowersAll.images <| .cons ht <| .cons h .nil)
    rw [Stmt.lowered, ho, Option.isSome_some, if_pos rfl, hl]
    exact (ht'.append h').note (by simp [checksOf_infixOp? ho])
  | .expr hs h, hw => by
    rw [lowered_expr hs, whole_single h]
    exact (h.accounts <| hw.expr <| by simp [Stmt.exprs]).mapped (by simp [blockTerms, Stmt.terms])
  | .assert h, hw => by
    simp only [Stmt.lowered, whole_single h]
    exact (h.accounts <| hw.expr <| by simp [Stmt.exprs]).mapped (by simp [blockTerms, Stmt.terms, checks_assertTerm])
  | .if ht hb ho, hw => by
    have ht := ht.accounts (c := c) (hw.expr <| by simp [Stmt.exprs])
    have hb := hb.accounts (c := c) fun t ht => hw.child <| by simp [Stmt.children, Stmt.blocks, ht]
    have ho := ho.accounts (c := c) fun t ht => hw.child <| by simp [Stmt.children, Stmt.blocks, ht]
    simpa [Stmt.lowered, blockTerms, Stmt.terms, branchTerms] using ht.append (hb.append ho)
  | .while ht hb, hw => by
    have ht := ht.accounts (c := c) (hw.expr <| by simp [Stmt.exprs])
    have hb := hb.accounts (c := c) fun t ht => hw.child <| by simp [Stmt.children, Stmt.blocks, ht]
    simpa [Stmt.lowered, blockTerms, Stmt.terms] using ht.append hb
  | .for hr hb, hw => by
    obtain ⟨_, _, args, rfl, ha, hl, hd, hh⟩ := hr.accounts (c := c) (hw.expr <| by simp [Stmt.exprs])
    have hb := hb.accounts (c := c) fun t ht => hw.child <| by simp [Stmt.children, Stmt.blocks, ht]
    simpa [Stmt.lowered, ha, hl, blockTerms, Stmt.terms, hd] using hh.append hb

theorem EmitsBlock.accounts {c : Check} :
    EmitsBlock v ss σ code n τ → (∀ s ∈ ss, Formed s) → Accounts v c n (blockTerms code) (Block.lowered v ss)
  | .nil, _ => .nil
  | .cons h hs, hw => by
    have hf := h.accounts (c := c) (hw _ List.mem_cons_self)
    rw [blockTerms_append]
    exact hf.append (hs.accounts fun t ht => hw t <| List.mem_cons_of_mem _ ht)

theorem EmitsOrelse.accounts {c : Check} : EmitsOrelse v ss σ more final n τ → (∀ s ∈ ss, Formed s) →
    Accounts v c n (branchTerms more ++ orelseTerms final) (Block.lowered v ss)
  | .nil, _ => .nil
  | .elif ht hb ho, hw => by
    have hs := hw _ List.mem_cons_self
    have ht := ht.accounts (c := c) (hs.expr <| by simp [Stmt.exprs])
    have hb := hb.accounts (c := c) fun t ht => hs.child <| by simp [Stmt.children, Stmt.blocks, ht]
    have ho := ho.accounts (c := c) fun t ht => hs.child <| by simp [Stmt.children, Stmt.blocks, ht]
    simpa [Block.lowered, Stmt.lowered, branchTerms] using ht.append (hb.append ho)
  | .else _ _ h, hw => by simpa [branchTerms, orelseTerms] using h.accounts hw

end

theorem Formed.translated {s t : PyVerify.Stmt} (h : Formed s) (ht : t ∈ s.translated) : Formed t := by
  unfold PyVerify.Stmt.translated mainBlock at ht
  split at ht
  case h_1 => exact h.child (by simp [Stmt.children, Stmt.blocks, ht])
  case h_2 =>
    split at ht
    case h_1 | h_2 => cases ht
    case h_3 =>
      split at ht
      case isTrue => exact h.child (by simp [Stmt.children, Stmt.blocks, ht])
      case isFalse => exact List.mem_singleton.mp ht ▸ h
    case h_4 => exact List.mem_singleton.mp ht ▸ h

-- The terms in what a top-level statement adds to the program.
def Part.terms (part : Part) : List Term :=
  part.definition?.toList.flatMap Definition.terms ++ blockTerms part.mainCode

@[simp] theorem blockTerms_declarations {names : List Binding} : blockTerms (declarations names) = [] := by
  unfold declarations
  induction names <;> simp_all [blockTerms, Stmt.terms]

theorem accounts_emitTopLevel {s : PyVerify.Stmt} {σ : Scope} (hw : Formed s) :
    Accounts v c (emitTopLevel v s σ).notes (emitTopLevel v s σ).value.terms (Block.lowered v s.translated) := by
  have hb : ∀ {τ}, Accounts v c (emitBlock v s.translated τ).notes (blockTerms (emitBlock v s.translated τ).value)
      (Block.lowered v s.translated) :=
    (EmitsBlock.of_emitBlock _ rfl).accounts fun t ht => hw.translated ht
  have hs : s.translated = [s] → Accounts v c (emitStmt v s σ).notes (blockTerms (emitStmt v s σ).value)
      (Block.lowered v s.translated) := by
    intro h
    simpa [h, Block.lowered] using (Emits.of_emitStmt s rfl).accounts hw
  revert hb hs
  fun_cases emitTopLevel v s
  all_goals intro hb hs
  case case1 =>
    simpa [Part.terms, Part.definition?, Part.mainCode, Definition.terms, emitFunction, blockTerms,
      PyVerify.Stmt.translated] using hb
  case case2 isAsync _ _ _ _ h =>
    cases isAsync
    case false  => exact (h rfl).elim
    case true   => exact .nil
  case case3 => exact .nil
  case case4 z test block other hg =>
    have ht : (PyVerify.Stmt.if z test block other).translated = block := if_pos hg
    rw [ht] at hb ⊢
    cases other <;> simpa [Part.terms, Part.definition?, Part.mainCode, bind, pure, blockTerms, Stmt.terms] using hb
  case case5 z test block other hg =>
    have ht : (PyVerify.Stmt.if z test block other).translated = [.if z test block other] := if_neg hg
    simpa [Part.terms, Part.definition?, Part.mainCode, bind, pure] using hs ht
  case case6 hf hd hc hi =>
    have ht : s.translated = [s] := (PyVerify.Stmt.translated.eq_2 s hf).trans (mainBlock.eq_4 s hd hc hi)
    simpa [Part.terms, Part.definition?, Part.mainCode, bind, pure] using hs ht

theorem accounts_emitTopLevels {ss : List PyVerify.Stmt} {σ : Scope} (hw : ∀ s ∈ ss, Formed s) :
    Accounts v c (emitTopLevels v ss σ).notes ((emitTopLevels v ss σ).value.flatMap Part.terms)
      (ss.flatMap fun s => Block.lowered v s.translated) := by
  induction ss generalizing σ
  case nil => exact .nil
  case cons s ss hi =>
    have hs := accounts_emitTopLevel (v := v) (c := c) (σ := σ) (hw s List.mem_cons_self)
    simpa [emitTopLevels, bind, pure] using hs.append (hi fun t ht => hw t <| List.mem_cons_of_mem _ ht)

theorem mem_checksOfAll_parts {parts : List Part} :
    c ∈ checksOfAll (parts.flatMap Part.terms) ↔
      c ∈ checksOfAll ((parts.filterMap Part.definition?).flatMap Definition.terms) ∨
        c ∈ checksOfAll (blockTerms (parts.flatMap Part.mainCode)) := by
  induction parts
  case nil => simp [blockTerms]
  case cons part parts hi =>
    cases hd : part.definition?
    all_goals
      simp only [List.flatMap_cons, List.filterMap_cons, hd, Part.terms, Option.toList, checksOfAll_append,
        blockTerms_append, List.mem_append, hi, List.flatMap_nil, checksOfAll]
      grind

namespace Translation

variable {m : Module} {t : Translation}

-- What is noted is the check of an operation in the program, or of one in an argument that a primitive does not
-- take.
theorem mem_checks_iff (hw : ∀ s ∈ m.body, Formed s) (h : ofModule? m = some t) :
    c ∈ t.checks ↔ c ∈ t.program.checks ∨ Lost (.ofModule m) m.discarded c := by
  simp only [ofModule?] at h
  split at h
  case isTrue => cases h
  case isFalse =>
    cases h
    simp only [distinct, mem_addDistinct, List.not_mem_nil, false_or, Program.checks, Program.terms, checksOfAll_append,
      blockTerms_append, blockTerms_declarations, List.nil_append, List.mem_append, ← mem_checksOfAll_parts]
    exact accounts_emitTopLevels hw

end Translation

end Code

-- The checks of an artifact are those of the operations in its text, and those of operations that were lowered
-- with an argument of a primitive for an arbitrary value, and left out with it.
theorem Artifact.checks_of_operations {source : List Char} {a : Artifact} (h : ofSource source [] = .ok a) :
    ∃ m t, Module.parse source = .ok m ∧ Translation.ofModule? m = some t ∧ a.text = t.program.text ∧
      ∀ c, c ∈ a.checks ↔ c ∈ t.program.checks ∨ Lost (.ofModule m) m.discarded c := by
  unfold ofSource at h
  split at h
  case h_1 => cases h
  case h_2 m hm =>
    split at h
    case h_1 => cases h
    case h_2 t ht =>
      cases h
      obtain ⟨tokens, -, hp⟩ := Module.parse_eq_ok_iff.mp hm
      have hf : ∀ s ∈ m.body, Formed s := fun s hs _ hk => Token.wellFormed_of_occurs hp ⟨s, hs, hk⟩
      exact ⟨m, t, hm, ht, rfl, fun c => Translation.mem_checks_iff hf ht⟩

-- A quotient that gets lost, and a sum and a subscript that do not.
def seeded : List Char :=
  "from esbmc import nondet_int\nx = y[nondet_int(1 // 2)]\nx += 1\n".toList

theorem seeded_checks_of_operations :
    ∃ a, Artifact.ofSource seeded [] = .ok a ∧ a.checks = [.bounds, .divByZero, .overflow] ∧
      ∃ m t, Module.parse seeded = .ok m ∧ Translation.ofModule? m = some t ∧ a.text = t.program.text ∧
        ∀ c, c ∈ a.checks ↔ c ∈ t.program.checks ∨ Lost (.ofModule m) m.discarded c := by
  have hc : (Artifact.ofSource seeded []).toOption.bind (fun a => some a.checks) =
      some [.bounds, .divByZero, .overflow] := by decide +kernel
  obtain ⟨a, h, hc⟩ := exists_ok_of_toOption hc
  exact ⟨a, h, Option.some.inj hc, Artifact.checks_of_operations h⟩

-- The text of this program has no operation.
def halved : List Char :=
  "from esbmc import nondet_int\nx = nondet_int(1 // 2)\n".toList

theorem halved_checks_without_operation :
    ∃ a m t, Artifact.ofSource halved [] = .ok a ∧ Module.parse halved = .ok m ∧
      Translation.ofModule? m = some t ∧ a.text = t.program.text ∧
        .divByZero ∈ a.checks ∧ .divByZero ∉ t.program.checks := by
  have hc : (Module.parse halved).toOption.bind (fun m => (Translation.ofModule? m).bind fun t =>
      some (t.checks, t.program.checks)) = some ([.divByZero], []) := by decide +kernel
  obtain ⟨m, hm, hc⟩ := exists_ok_of_toOption hc
  obtain ⟨t, ht, hc⟩ := Option.bind_eq_some_iff.mp hc
  obtain ⟨hs, hp⟩ := Prod.mk.inj <| Option.some.inj hc
  have ha : (Artifact.ofTranslation t []).checks = t.checks := rfl
  refine ⟨.ofTranslation t [], m, t, by simp only [Artifact.ofSource, hm, ht], hm, ht, rfl, ?_, ?_⟩
  · simp [ha, hs]
  · simp [hp]

end PyVerify
