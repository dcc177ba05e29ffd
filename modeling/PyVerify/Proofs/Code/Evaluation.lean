import PyVerify.Proofs.Code.Calls

namespace PyVerify.Code

-- What a call in the code stands for: a call in the source, or the test of an assertion.
inductive Origin where
  | call (e : PyVerify.Expr)
  | assertion (test : PyVerify.Expr) (message : Option PyVerify.Expr)

inductive Stands (v : Verifier) : Origin → Term → Prop
  | call (h : Image v e t) : Stands v (.call e) t
  | assertion (h : Lowers v test t n) :
      Stands v (.assertion test message) (assertTerm v (bare test t) message)

def Condition.calls : Condition → List Term
  | .term t         => t.calls
  | .unsupported _  => []

def RangeHeader.calls (h : RangeHeader) : List Term :=
  callsOf (h.start :: h.stop :: h.step.toList)

-- The calls in a piece of code, in the order of the text.

mutual

def Stmt.calls : Stmt → List Term
  | .declare _ _ (some t) | .term t | .return t => t.calls
  | .assign t u | .augment t _ u  => t.calls ++ u.calls
  | .while test body              => test.calls ++ blockCalls body
  | .if branches orelse           => branchCalls branches ++ orelseCalls orelse
  | .forRange header body         => header.calls ++ blockCalls body
  | .declare _ _ none | .returnUnsupported | .break | .continue | .placeholder _ => []

def blockCalls : List Stmt → List Term
  | []      => []
  | s :: ss => s.calls ++ blockCalls ss

def branchCalls : List (Condition × List Stmt) → List Term
  | []                    => []
  | (test, body) :: rest  => test.calls ++ (blockCalls body ++ branchCalls rest)

def orelseCalls : Option (List Stmt) → List Term
  | none      => []
  | some body => blockCalls body

end

-- An expression has a term.
def lowerable (v : Verifier) (e : PyVerify.Expr) : Bool :=
  match lowerOpen v e with
  | Except.ok _     => true
  | Except.error _  => false

-- The calls of expressions that are written down together, if each of them has a term.
def together (copies : Bool) (v : Verifier) (es : List PyVerify.Expr) : List Origin :=
  if es.all (lowerable v) then (es.flatMap (Expr.calls copies v)).map .call else []

-- A target is written as a term, if it is not a name.
def place : PyVerify.Expr → List PyVerify.Expr
  | .name ..  => []
  | e         => [e]

-- The expressions of an assignment in the order of the text: with `copies` the value comes once for each
-- target, and otherwise once.
def assigned (copies : Bool) (targets : List PyVerify.Expr) (e : PyVerify.Expr) : List PyVerify.Expr :=
  if copies then targets.flatMap fun target => place target ++ [e] else targets.flatMap place ++ [e]

end PyVerify.Code

namespace PyVerify

open Code

-- The calls of the parts of a statement that become code, and not those of parts that a comment stands
-- for. With `copies` a call is listed as often as it is written, and otherwise once.

mutual

def Stmt.origins (copies : Bool) (v : Verifier) : Stmt → List Origin
  | .return _ (some e)                      => together copies v [e]
  | .assign _ targets e                     =>
    if targets.any isUnpacking then [] else together copies v (assigned copies targets e)
  | .annAssign _ target _ (some e)          => together copies v (place target ++ [e])
  | .augAssign _ target op e                =>
    if (infixOp? op).isSome then together copies v [target, e] else []
  | .expr _ (.constant _ (.str _))          => []
  | .expr _ (.call _ (.name _ "print") _ _) => []
  | .expr _ e                               => together copies v [e]
  | .assert _ test message                  =>
    if lowerable v test then .assertion test message :: together copies v [test] else []
  | .if _ test block other                  =>
    together copies v [test] ++ (Block.origins copies v block ++ Block.origins copies v other)
  | .while _ test block _                   => together copies v [test] ++ Block.origins copies v block
  | .for _ _ (.name ..) iter block _        =>
    match rangeArgs? iter with
    | some args =>
      if args.all (lowerable v) then together copies v args ++ Block.origins copies v block else []
    | none => []
  | _ => []

def Block.origins (copies : Bool) (v : Verifier) : List Stmt → List Origin
  | []      => []
  | s :: ss => s.origins copies v ++ Block.origins copies v ss

end

namespace Code

open List (Forall₂)

variable {v : Verifier}

section

variable {copies : Bool} {e : PyVerify.Expr} {es : List PyVerify.Expr} {t : Term} {n : Notes}
  {σ τ : Scope} {code : List Stmt}

@[simp] theorem callsOf_append {ts us : List Term} : callsOf (ts ++ us) = callsOf ts ++ callsOf us := by
  induction ts <;> simp_all

@[simp] theorem blockCalls_append {more : List Stmt} :
    blockCalls (code ++ more) = blockCalls code ++ blockCalls more := by
  induction code <;> simp_all [blockCalls]

theorem Image.lowerable (h : Image v e t) : lowerable v e := by
  obtain ⟨n, h⟩ := h
  simp [Code.lowerable, h.lowerOpen_eq]

theorem Fails.not_lowerable {cause : Unsupported} (h : Fails v e cause) : ¬lowerable v e := by
  simp only [Fails] at h
  simp [lowerable, h]

theorem together_eq_nil {cause : Unsupported} (he : e ∈ es) (h : Fails v e cause) :
    together copies v es = [] :=
  if_neg fun ha => h.not_lowerable <| List.all_eq_true.mp ha e he

theorem LowersAll.images (h : LowersAll v es ts n) : Forall₂ (Image v) es ts := by
  induction es generalizing ts n
  all_goals cases h
  case nil  => exact .nil
  case cons hi _ _ _ _ h hs => exact .cons ⟨_, h⟩ (hi hs)

@[simp] theorem blockCalls_loopElse {other : List PyVerify.Stmt} : blockCalls (loopElse other) = [] := by
  unfold loopElse
  split <;> rfl

theorem all_lowerable {ts : List Term} (h : Forall₂ (Image v) es ts) : es.all (lowerable v) := by
  induction h
  case nil => rfl
  case cons h _ hi => simp [h.lowerable, hi]

theorem lowerable_name {z : Span} {ident : String} : lowerable v (.name z ident) :=
  Image.lowerable ⟨_, .name⟩

theorem Places.lowerable {p : Option Term} {m : Notes} (h : Places v e p m) : lowerable v e := by
  cases h
  case name   => exact lowerable_name
  case term h => exact Image.lowerable ⟨_, h⟩

theorem PlacesAll.all_lowerable {ps : List (Option Term)} {m : Notes} (h : PlacesAll v es ps m) :
    es.all (Code.lowerable v) := by
  induction h
  case nil => rfl
  case cons h _ hi => simp [h.lowerable, hi]

theorem together_stands {ts : List Term} (h : Forall₂ (Image v) es ts) :
    Forall₂ (Stands v) (together true v es) (callsOf ts) := by
  have hm : Forall₂ (Matches v) es ts := h.imp fun _ _ ⟨_, hl⟩ => hl.matches
  unfold together
  rw [if_pos (all_lowerable h), List.forall₂_map_left_iff]
  exact (Matches.flatMap hm).imp fun _ _ => .call

theorem together_stands_single (h : Lowers v e t n) : Forall₂ (Stands v) (together true v [e]) t.calls := by
  simpa using together_stands (.cons ⟨n, h⟩ .nil)

theorem calls_assertTerm {message : Option PyVerify.Expr} :
    (assertTerm v t message).calls = assertTerm v t message :: t.calls := by
  unfold assertTerm
  split <;> simp

theorem Tests.stands {c : Condition} (h : Tests v e c n) :
    Forall₂ (Stands v) (together true v [e]) c.calls := by
  cases h
  case term h         => simpa [Condition.calls] using together_stands_single h
  case unsupported h  => simp [Condition.calls, together_eq_nil List.mem_cons_self h]

theorem Places.images {p : Option Term} {type : CType} {value : Term} (h : Places v e p n)
    (ha : Assigns type value e p σ code τ) :
    ∃ ts, Forall₂ (Image v) (place e) ts ∧ blockCalls code = callsOf ts ++ value.calls := by
  cases h
  case name =>
    refine ⟨[], .nil, ?_⟩
    cases ha <;> simp [blockCalls, Stmt.calls]
  case term t hn h =>
    cases ha
    have hp : place e = [e] := by
      unfold place
      split
      case h_1 s ident => exact absurd rfl (hn s ident)
      case h_2 => rfl
    exact ⟨[t], hp ▸ .cons ⟨n, h⟩ .nil, by simp [blockCalls, Stmt.calls]⟩

theorem PlacesAll.images {x : PyVerify.Expr} {type : CType} {value : Term} (hx : Image v x t)
    (hv : value.calls = t.calls) (h : PlacesAll v es ps n) (ha : AssignsAll type value es ps σ code τ) :
    ∃ ts, Forall₂ (Image v) (assigned true es x) ts ∧ blockCalls code = callsOf ts := by
  induction ha generalizing n
  case nil => exact ⟨[], .nil, rfl⟩
  case cons hf _ hi =>
    obtain _ | ⟨hp, hps⟩ := h
    obtain ⟨ts, hts, hc⟩ := hp.images hf
    obtain ⟨us, hus, hd⟩ := hi hps
    refine ⟨ts ++ [t] ++ us, ?_, by simp [hc, hd, hv]⟩
    exact List.rel_append (List.rel_append hts <| .cons hx .nil) hus

theorem RangeHeader.calls_eq {ident : String} {args : List PyVerify.Expr} {ts : List Term}
    {header : RangeHeader} (h : rangeHeader? ident args ts = some header) :
    header.calls = callsOf ts := by
  revert h
  fun_cases rangeHeader? ident args ts
  all_goals
    intro h
    cases h
    try simp [calls]

theorem Ranges.calls_eq {target iter : PyVerify.Expr} {declaration : List Stmt} {header : RangeHeader}
    (h : Ranges v target iter σ declaration header n τ) :
    ∃ z ident args ts, target = .name z ident ∧ rangeArgs? iter = some args ∧ Forall₂ (Image v) args ts ∧
      blockCalls declaration = [] ∧ header.calls = callsOf ts := by
  obtain ⟨hr, ha, hh, hd⟩ := h
  refine ⟨_, _, _, _, rfl, hr, ha.images, ?_, ?_⟩
  · cases hd <;> rfl
  · rw [RangeHeader.calls_eq hh, ha.callsOf_zipWith fun _ _ => calls_grouped]

theorem Fails.place_eq {cause : Unsupported} (h : Fails v e cause) : place e = [e] := by
  cases e
  case name => cases h
  all_goals rfl

theorem together_assigned_of_value {cause : Unsupported} (h : Fails v e cause) :
    together copies v (assigned copies es e) = [] := by
  by_cases ha : assigned copies es e = []
  case pos => simp [ha, together]
  case neg =>
    refine together_eq_nil ?_ h
    cases copies
    case false => simp [assigned]
    case true =>
      obtain ⟨x, hx⟩ := List.exists_mem_of_ne_nil es (by rintro rfl; exact ha rfl)
      simpa [assigned] using ⟨x, hx⟩

theorem together_assigned_of_target {x : PyVerify.Expr} {cause : Unsupported} (hx : x ∈ es)
    (h : Fails v x cause) : together copies v (assigned copies es e) = [] := by
  refine together_eq_nil ?_ h
  have hp : x ∈ place x := h.place_eq ▸ List.mem_cons_self
  cases copies
  case false  => simpa [assigned] using .inl ⟨x, hx, hp⟩
  case true   => simpa [assigned] using ⟨x, hx, .inl hp⟩

theorem origins_expr {s : Span} (h : ¬Silent (.expr s e)) :
    (Stmt.expr s e).origins copies v = together copies v [e] := by
  have ht : ∀ z body, e ≠ .constant z (.str body) := fun _ _ he => h (he ▸ .text)
  have hp : ∀ z y args keywords, e ≠ .call z (.name y "print") args keywords :=
    fun _ _ _ _ he => h (he ▸ .print)
  unfold Stmt.origins
  split
  all_goals simp_all

theorem Rejects.origins_eq {s : PyVerify.Stmt} {what : Placeholder} (h : Rejects v s what) :
    s.origins copies v = [] := by
  cases h
  case kind h       => cases h <;> rfl
  case unpacking h  => simp [Stmt.origins, h]
  case value hu h => simp [Stmt.origins, hu, together_assigned_of_value h]
  case target hu ht h => simp [Stmt.origins, hu, together_assigned_of_target ht h]
  case annotatedValue h => simp [Stmt.origins, together_eq_nil _ h]
  case annotatedTarget h => simp [Stmt.origins, h.place_eq, together_eq_nil _ h]
  case augment h => simp [Stmt.origins, h]
  case augmentedTarget h => simp [Stmt.origins, together_eq_nil _ h]
  case augmentedValue h => simp [Stmt.origins, together_eq_nil _ h]
  case expr hs h => simp [origins_expr hs, together_eq_nil List.mem_cons_self h]
  case assert h => simp [Stmt.origins, h.not_lowerable]
  case loopTarget target _ _ _ _ _ h => cases target <;> first | rfl | exact absurd rfl (h _ _)
  case loopIterable h => simp [Stmt.origins, h]
  case bound hr ha h =>
    have hl := List.all_eq_true.not.mpr fun hl => h.not_lowerable (hl _ ha)
    simp [Stmt.origins, hr, hl]

end

mutual

theorem Emits.stands : Emits v s σ code n τ → Forall₂ (Stands v) (s.origins true v) (blockCalls code)
  | .silent h => by cases h <;> exact .nil
  | .placeholder h => by simp [h.origins_eq, blockCalls, Stmt.calls]
  | .break | .continue | .returnZero => .nil
  | .return h => by simpa [blockCalls, Stmt.calls, Stmt.origins] using together_stands_single h
  | .returnUnsupported h => by
    simp [blockCalls, Stmt.calls, Stmt.origins, together_eq_nil List.mem_cons_self h]
  | .assign hu h hp ha => by
    obtain ⟨ts, hi, hc⟩ := hp.images ⟨_, h⟩ calls_bare ha
    simpa [Stmt.origins, hu, hc] using together_stands hi
  | .annAssign h hp ha => by
    obtain ⟨ts, hi, hc⟩ := hp.images ha
    have := together_stands (List.rel_append hi (.cons ⟨_, h⟩ .nil))
    simpa [Stmt.origins, hc] using this
  | .typed hd => by cases hd <;> simp [Stmt.origins, blockCalls, Stmt.calls]
  | .typedPlace h => by simp [Stmt.origins, blockCalls]
  | .augAssign ho ht h => by
    have := together_stands (.cons ⟨_, ht⟩ <| .cons ⟨_, h⟩ .nil)
    simpa [Stmt.origins, ho, blockCalls, Stmt.calls] using this
  | .expr hs h => by
    simpa [origins_expr hs, blockCalls, Stmt.calls] using together_stands_single h
  | .assert h => by
    have hl := Image.lowerable ⟨_, h⟩
    simpa [Stmt.origins, hl, blockCalls, Stmt.calls, calls_assertTerm] using
      Forall₂.cons (.assertion h) (together_stands_single h)
  | .if ht hb ho => by
    have hs := List.rel_append ht.stands (List.rel_append hb.stands ho.stands)
    simpa [Stmt.origins, blockCalls, Stmt.calls, branchCalls] using hs
  | .while ht hb => by
    have hs := List.rel_append ht.stands hb.stands
    simpa [Stmt.origins, blockCalls, Stmt.calls] using hs
  | .for hr hb => by
    obtain ⟨_, _, args, _, rfl, ha, hi, hd, hh⟩ := hr.calls_eq
    have hs := List.rel_append (together_stands hi) hb.stands
    simpa [Stmt.origins, ha, all_lowerable hi, blockCalls, Stmt.calls, hd, hh] using hs

theorem EmitsBlock.stands :
    EmitsBlock v ss σ code n τ → Forall₂ (Stands v) (Block.origins true v ss) (blockCalls code)
  | .nil => .nil
  | .cons h hs => by simpa [Block.origins] using List.rel_append h.stands hs.stands

theorem EmitsOrelse.stands : EmitsOrelse v ss σ more final n τ →
    Forall₂ (Stands v) (Block.origins true v ss) (branchCalls more ++ orelseCalls final)
  | .nil => .nil
  | .elif ht hb ho => by
    have := List.rel_append ht.stands (List.rel_append hb.stands ho.stands)
    simpa [Block.origins, Stmt.origins, branchCalls] using this
  | .else _ _ h => by simpa [branchCalls, orelseCalls] using h.stands

end

end Code

variable {v : Verifier} {e x left : Expr} {links : List (CompareOp × Expr)} {s t : Stmt}

-- No call stands between two links of a comparison.
def Expr.Plain (v : Verifier) (e : Expr) : Prop :=
  ∀ z left links, Within (.expr (.compare z left links)) (.expr e) →
    ∀ x ∈ links.dropLast.map Prod.snd, x.calls false v = []

-- Nor is the value of an assignment to several targets made by a call.
structure Stmt.Plain (v : Verifier) (s : Stmt) : Prop where
  chains  : ∀ z left links, Within (.expr (.compare z left links)) (.stmt s) →
              ∀ x ∈ links.dropLast.map Prod.snd, x.calls false v = []
  targets : ∀ z targets e, Within (.stmt (.assign z targets e)) (.stmt s) →
              targets.length = 1 ∨ e.calls false v = []

theorem Expr.Plain.child (p : e.Plain v) (h : x ∈ e.children) : x.Plain v :=
  fun z left links hw => p z left links <| within_expr_iff.mpr <| .inr ⟨x, h, hw⟩

theorem Stmt.Plain.expr (p : s.Plain v) (h : x ∈ s.exprs) : x.Plain v :=
  fun z left links hw => p.chains z left links <| within_stmt_expr_iff.mpr <| .inl ⟨x, h, hw⟩

theorem Stmt.Plain.child (p : s.Plain v) (h : t ∈ s.children) : t.Plain v where
  chains z left links hw := p.chains z left links <| within_stmt_expr_iff.mpr <| .inr ⟨t, h, hw⟩
  targets z targets e hw := p.targets z targets e <| within_stmt_stmt_iff.mpr <| .inr ⟨t, h, hw⟩

theorem operands_copies {k : Expr → List Expr} (left : Expr) (h : ∀ x ∈ links.dropLast.map Prod.snd, k x = []) :
    (operands true left links).flatMap k = (operands false left links).flatMap k := by
  fun_induction operands false left links
  case case1 => rfl
  case case2 => rfl
  case case3 left op x links hn hi =>
    cases links
    case nil => exact absurd rfl hn
    case cons => simp_all [operands]

theorem Expr.calls_copies (e : Expr) (p : e.Plain v) : e.calls true v = e.calls false v := by
  have hc : ∀ x ∈ e.children, x.calls true v = x.calls false v := by
    intro x hx
    have := sizeOf_lt_of_mem_children hx
    exact calls_copies x (p.child hx)
  have hk : (e.kept true v).flatMap (calls true v) = (e.kept true v).flatMap (calls false v) :=
    List.flatMap_congr fun x hx => hc x (kept_subset_children hx)
  rw [calls_eq, calls_eq, hk]
  cases e
  case compare z left links =>
    have := operands_copies left (p z left links .refl)
    simp [kept, this]
  all_goals rfl
termination_by sizeOf e

namespace Code

theorem together_copies {es : List Expr} (p : ∀ x ∈ es, x.Plain v) :
    together true v es = together false v es := by
  unfold together
  rw [List.flatMap_congr fun x hx => Expr.calls_copies x (p x hx)]

theorem mem_of_mem_place (h : x ∈ place e) : x = e := by
  cases e
  case name => cases h
  all_goals exact List.mem_singleton.mp h

theorem mem_of_mem_assigned {targets : List Expr} {copies : Bool} (h : x ∈ assigned copies targets e) :
    x ∈ targets ++ [e] := by
  unfold assigned at h
  split at h
  all_goals
    simp only [List.mem_append, List.mem_flatMap, List.mem_singleton] at h ⊢
    grind [mem_of_mem_place]

theorem together_assigned {targets : List Expr} (p : ∀ x ∈ targets ++ [e], x.Plain v)
    (h : targets.length = 1 ∨ e.calls false v = []) :
    together true v (assigned true targets e) = together false v (assigned false targets e) := by
  rw [together_copies fun x hx => p x (mem_of_mem_assigned hx)]
  obtain hl | he := h
  case inl =>
    obtain ⟨target, rfl⟩ := List.length_eq_one_iff.mp hl
    simp [assigned]
  case inr =>
    have hc : (assigned true targets e).flatMap (Expr.calls false v) =
        (assigned false targets e).flatMap (Expr.calls false v) := by
      simp [assigned, he, List.flatMap_assoc]
    have ha : targets ≠ [] → (assigned true targets e).all (lowerable v) =
        (assigned false targets e).all (lowerable v) := by
      intro hn
      obtain ⟨target, ht⟩ := List.exists_mem_of_ne_nil _ hn
      rw [Bool.eq_iff_iff]
      simp [assigned]
      grind
    cases targets
    case nil => simp [together, assigned, he]
    case cons => simp only [together, hc, ha (by simp)]

end Code

namespace Stmt

-- The code does not list a call of a plain statement again.

mutual

theorem origins_copies : (s : Stmt) → s.Plain v → s.origins true v = s.origins false v
  | .return _ (some _), p => together_copies (by simpa using p.expr List.mem_cons_self)
  | .assign _ targets e, p => by
    simp only [origins]
    rw [together_assigned (fun x hx => p.expr (by simpa [exprs] using hx)) (p.targets _ _ _ .refl)]
  | .annAssign _ target _ (some e), p => by
    refine together_copies fun x hx => p.expr ?_
    simp only [List.mem_append, List.mem_singleton] at hx
    grind [exprs, mem_of_mem_place]
  | .augAssign _ target op e, p => by
    simp only [origins]
    rw [together_copies (fun x hx => p.expr (by simpa [exprs] using hx))]
  | .expr z e, p => by
    by_cases hs : Silent (.expr z e)
    case pos => cases hs <;> rfl
    case neg =>
      rw [origins_expr hs, origins_expr hs]
      exact together_copies (by simpa using p.expr List.mem_cons_self)
  | .assert _ test message, p => by
    simp only [origins]
    rw [together_copies (by simpa using p.expr List.mem_cons_self)]
  | .if _ test block other, p => by
    simp only [origins]
    rw [together_copies (by simpa using p.expr List.mem_cons_self),
      Block.origins_copies block fun t ht => p.child (by simp [children, blocks, ht]),
      Block.origins_copies other fun t ht => p.child (by simp [children, blocks, ht])]
  | .while _ test block _, p => by
    simp only [origins]
    rw [together_copies (by simpa using p.expr List.mem_cons_self),
      Block.origins_copies block fun t ht => p.child (by simp [children, blocks, ht])]
  | .for z isAsync target iter block other, p => by
    have hb := Block.origins_copies block fun t ht => p.child (by simp [children, blocks, ht])
    cases target
    case name =>
      cases ha : rangeArgs? iter
      case none => simp only [origins, ha]
      case some args =>
        have hi : iter.Plain v := p.expr (by simp [exprs])
        simp only [origins, ha, hb]
        rw [together_copies fun x hx => hi.child (mem_children_of_rangeArgs? ha hx)]
    all_goals rfl
  | .return _ none, _ | .annAssign _ _ _ none, _ | .functionDef .., _ | .classDef .., _ | .delete .., _
  | .with .., _ | .raise .., _ | .try .., _ | .match .., _ | .typeAlias .., _ | .importModules .., _
  | .importFrom .., _ | .global .., _ | .nonlocal .., _ | .pass _, _ | .break _, _ | .continue _, _ => rfl

theorem Block.origins_copies : (ss : List Stmt) → (∀ s ∈ ss, s.Plain v) →
    Block.origins true v ss = Block.origins false v ss
  | [], _ => rfl
  | s :: ss, p => by
    simp only [Block.origins]
    rw [origins_copies s (p s List.mem_cons_self),
      Block.origins_copies ss fun t ht => p t (List.mem_cons_of_mem _ ht)]

end

end Stmt

namespace Code

-- The calls in the code of a statement are those of the parts that are lowered, one for one and in the same
-- order. The operand between two links of a comparison is written twice, and the value of an assignment
-- once for each target; without a call in such a place each call is written once.
theorem emitStmt_calls (v : Verifier) (s : PyVerify.Stmt) (σ : Scope) :
    List.Forall₂ (Stands v) (s.origins true v) (blockCalls (emitStmt v s σ).value) ∧
      (s.Plain v → s.origins true v = s.origins false v) :=
  ⟨(Emits.of_emitStmt s rfl).stands, s.origins_copies⟩

-- The statement `assert f(1) < n < g(2)`: the calls of its chain stand at the ends.
def bounded : PyVerify.Stmt :=
  .assert ⟨0, 22⟩
    (.compare ⟨7, 15⟩ (.call ⟨7, 4⟩ (.name ⟨7, 1⟩ "f") [.constant ⟨9, 1⟩ (.int 1)] [])
      [(.lt, .name ⟨14, 1⟩ "n"),
        (.lt, .call ⟨18, 4⟩ (.name ⟨18, 1⟩ "g") [.constant ⟨20, 1⟩ (.int 2)] [])])
    none

theorem bounded_plain : bounded.Plain .none where
  chains z left links hw := by
    obtain ⟨x, hx, hw⟩ | ⟨t, ht, _⟩ := within_stmt_expr_iff.mp hw
    case inr => cases ht
    case inl =>
    obtain rfl := List.mem_singleton.mp hx
    obtain heq | ⟨x, hx, hw⟩ := within_expr_iff.mp hw
    case inl =>
      cases heq
      decide +kernel
    case inr =>
    simp only [Expr.children, List.map, List.mem_cons, List.not_mem_nil, or_false] at hx
    obtain rfl | rfl | rfl := hx
    all_goals
      obtain heq | ⟨x, hx, hw⟩ := within_expr_iff.mp hw
      case inl => cases heq
      case inr =>
      simp only [Expr.children, List.append_nil, List.map, List.mem_cons, List.not_mem_nil, or_false] at hx
      try obtain rfl | rfl := hx
      all_goals cases (within_leaf_iff rfl).mp hw
  targets z targets e hw := by
    obtain heq | ⟨t, ht, _⟩ := within_stmt_stmt_iff.mp hw
    · cases heq
    · cases ht

theorem bounded_called_once :
    (bounded.origins false .none).length = 3 ∧
      List.Forall₂ (Stands .none) (bounded.origins false .none) (blockCalls (emitStmt .none bounded []).value) := by
  obtain ⟨hs, hp⟩ := emitStmt_calls .none bounded []
  exact ⟨by decide +kernel, hp bounded_plain ▸ hs⟩

-- The statement `a = b = f()`: one call for two targets.
def twins : PyVerify.Stmt :=
  .assign ⟨0, 11⟩ [.name ⟨0, 1⟩ "a", .name ⟨4, 1⟩ "b"] (.call ⟨8, 3⟩ (.name ⟨8, 1⟩ "f") [] [])

theorem twins_called_twice :
    ¬List.Forall₂ (Stands .none) (twins.origins false .none) (blockCalls (emitStmt .none twins []).value) := by
  intro h
  have hs : (twins.origins false .none).length = 1 := by decide +kernel
  have hc : (blockCalls (emitStmt .none twins []).value).length = 2 := by decide +kernel
  simpa [hs, hc] using h.length_eq

end Code
end PyVerify
