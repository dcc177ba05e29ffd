import PyVerify.Code.Lowering

namespace PyVerify.Code

namespace Notes

variable {m n k : Notes}

@[simp] theorem append_none : n ++ none = n := by
  show append n none = n
  simp [append, none]

@[simp] theorem none_append : none ++ n = n := by
  show append none n = n
  simp [append, none]

theorem append_assoc : m ++ n ++ k = m ++ (n ++ k) := by
  show append (append m n) k = append m (append n k)
  simp [append]

@[simp] theorem checks_append : (m ++ n).checks = m.checks ++ n.checks := rfl

end Notes

namespace Lowering

variable {α β : Type} {x : Lowering α} {f : α → Lowering β} {a b : α} {c : β} {m n : Notes}

theorem bind_eq_ok (h : (x >>= f) = Except.ok (c, n)) :
    ∃ a k l, x = Except.ok (a, k) ∧ f a = Except.ok (c, l) ∧ k ++ l = n := by
  simp only [bind] at h
  split at h
  case h_1 => cases h
  case h_2 a k =>
    split at h
    case h_1 => cases h
    case h_2 hf =>
      cases h
      exact ⟨a, k, _, rfl, hf, rfl⟩

theorem pure_eq_ok (h : (pure a : Lowering α) = Except.ok (b, n)) : a = b ∧ .none = n := by
  cases h
  exact ⟨rfl, rfl⟩

-- A value that is only wrapped up after it was found.
theorem bind_pure_eq_ok {g : α → β} (h : (x >>= fun a => pure (g a)) = Except.ok (c, n)) :
    ∃ a, x = Except.ok (a, n) ∧ g a = c := by
  obtain ⟨a, k, l, hx, hp, rfl⟩ := bind_eq_ok h
  obtain ⟨hc, rfl⟩ := pure_eq_ok hp
  exact ⟨a, by simpa using hx, hc⟩

theorem bind_ok (h : x = Except.ok (a, m)) (hf : f a = Except.ok (c, n)) :
    (x >>= f) = Except.ok (c, m ++ n) := by
  subst h
  simp only [bind, hf]
  rfl

theorem bind_pure_ok {g : α → β} (h : x = Except.ok (a, n)) :
    (x >>= fun a => pure (g a)) = Except.ok (g a, n) := by
  simpa using bind_ok (f := fun a => pure (g a)) h rfl

theorem bind_eq_error {cause : Unsupported} (h : (x >>= f) = Except.error cause) :
    x = Except.error cause ∨ ∃ a k, x = Except.ok (a, k) ∧ f a = Except.error cause := by
  simp only [bind] at h
  split at h
  case h_1 =>
    cases h
    exact .inl rfl
  case h_2 a k =>
    split at h
    case h_1 hf =>
      cases h
      exact .inr ⟨a, k, rfl, hf⟩
    case h_2 => cases h

theorem bind_pure_eq_error {g : α → β} {cause : Unsupported}
    (h : (x >>= fun a => pure (g a)) = Except.error cause) : x = Except.error cause := by
  obtain hx | ⟨_, _, _, hp⟩ := bind_eq_error h
  · exact hx
  · cases hp

theorem error_bind {cause : Unsupported} (h : x = Except.error cause) :
    (x >>= f) = Except.error cause := by
  subst h
  rfl

theorem bind_error {cause : Unsupported} (h : x = Except.ok (a, m)) (hf : f a = Except.error cause) :
    (x >>= f) = Except.error cause := by
  subst h
  simp only [bind, hf]
  rfl

protected theorem id_map (x : Lowering α) : id <$> x = x := by
  cases x
  case error => rfl
  case ok r  => exact bind_pure_ok rfl

protected theorem pure_bind (a : α) (f : α → Lowering β) : pure a >>= f = f a := by
  cases h : f a
  case error => exact bind_error rfl h
  case ok r  => simpa using bind_ok (x := pure a) rfl h

protected theorem bind_assoc {γ : Type} (x : Lowering α) (f : α → Lowering β) (g : β → Lowering γ) :
    x >>= f >>= g = x >>= fun a => f a >>= g := by
  let fg := fun a => f a >>= g
  cases hx : x
  case error => rfl
  case ok r =>
    rw [←hx]
    cases hf : f r.fst
    case error =>
      exact (error_bind <| bind_error hx hf).trans (bind_error (f := fg) hx <| error_bind hf).symm
    case ok q =>
      cases hg : g q.fst
      case error =>
        exact (bind_error (bind_ok hx hf) hg).trans (bind_error (f := fg) hx <| bind_error hf hg).symm
      case ok p =>
        have hl := bind_ok (bind_ok hx hf) hg
        rw [Notes.append_assoc] at hl
        exact hl.trans (bind_ok (f := fg) hx <| bind_ok hf hg).symm

theorem note_bind_eq_ok {g : Unit → Lowering β} (h : (note m >>= g) = Except.ok (c, n)) :
    ∃ l, g () = Except.ok (c, l) ∧ m ++ l = n := by
  obtain ⟨a, k, l, hx, hg, rfl⟩ := bind_eq_ok h
  cases hx
  exact ⟨l, hg, rfl⟩

end Lowering

instance : LawfulMonad Lowering :=
  .mk' Lowering Lowering.id_map Lowering.pure_bind Lowering.bind_assoc

-- The terms of the links of a comparison, from those of their operands.
def linked : List (CompareOp × Expr) → List Term → List (CompareOp × Term) :=
  List.zipWith fun link t => (link.fst, grouped link.snd t)

theorem map_snd_linked {links : List (CompareOp × Expr)} {ts : List Term} :
    (linked links ts).map Prod.snd = (links.map Prod.snd).zipWith grouped ts := by
  rw [linked, List.map_zipWith, List.zipWith_map_left]

-- A single link stands by itself.
theorem chain_cases (l : Term) (links : List (CompareOp × Term)) :
    linkTerms l links = [chain l links] ∨
      chain l links = .paren (.joined .and ((linkTerms l links).map .paren)) := by
  unfold chain
  split
  case h_1 h => exact .inl h
  case h_2   => exact .inr rfl

-- A conversion of a value has a term of its own.
theorem callTerm_cases (name : String) (ts : List Term) :
    (∃ t, ts = [t] ∧
      (name = "int" ∧ callTerm name ts = .cast .int (.paren t) ∨
       name = "float" ∧ callTerm name ts = .cast .float (.paren t) ∨
       name = "bool" ∧ callTerm name ts = .paren (.infix2 (.paren t) .notEq (.int 0)))) ∨
    (ts.length = 1 → name ∉ ["int", "float", "bool"]) ∧ callTerm name ts = .call (identifier name) ts := by
  fun_cases callTerm name ts
  case case5 hn => exact .inr ⟨fun h => (hn _ (List.length_eq_one_iff.mp h).choose_spec).elim, rfl⟩
  all_goals simp_all

mutual

-- An expression has a term, which calls for these notes.
inductive Lowers (v : Verifier) : Expr → Term → Notes → Prop
  | name : Lowers v (.name s ident) (.ident (identifier ident)) .none
  | int : Lowers v (.constant s (.int k)) (.int k) .none
  | float : Lowers v (.constant s (.float x)) (.float x) .none
  | str : Lowers v (.constant s (.str body)) (.str body) .none
  | truth : Lowers v (.constant s (.bool b)) (.int (if b then 1 else 0)) .none
  | none : Lowers v (.constant s .none) (.int 0) .none
  | binary (ho : infixOp? op = some sign) (hl : Lowers v left l m) (hr : Lowers v right r n) :
      Lowers v (.binary s left op right) (.infix2 (grouped left l) sign (grouped right r))
        (⟨checksOf op, []⟩ ++ (m ++ n))
  | unary (h : Lowers v operand t n) :
      Lowers v (.unary s op operand) (signTerm op (grouped operand t)) n
  | junction (h : LowersAll v values ts n) :
      Lowers v (.bool s op values)
        (.paren (.joined (boolOp op) ((values.zipWith grouped ts).map .paren))) n
  | compare (hl : Lowers v left l m) (hs : LowersAll v (links.map Prod.snd) ts n) :
      Lowers v (.compare s left links) (chain (grouped left l) (linked links ts)) (m ++ n)
  | assume (hp : v.primitive? func = some "assume") (hs : LowersAll v args ts n) :
      Lowers v (.call s func args []) (.call "__ESBMC_assume" (args.zipWith bare ts)) n
  | nondet (hp : v.primitive? func = some p) (hn : Verifier.isNondet p) (hs : LowersAll v args ts n) :
      Lowers v (.call s func args []) (.call p []) (n ++ ⟨[], [p]⟩)
  | call (hp : v.primitive? (.name z ident) = Option.none) (hs : LowersAll v args ts n) :
      Lowers v (.call s (.name z ident) args []) (callTerm ident (args.zipWith bare ts)) n
  | attr (hr : ¬v.isReceiver value) (h : Lowers v value t n) :
      Lowers v (.attr s value i) (.member (grouped value t) i.text) (⟨[.pointer], []⟩ ++ n)
  | subscript (hi : ¬isSliceOrTuple index) (h : Lowers v value t m) (hx : Lowers v index i n) :
      Lowers v (.subscript s value index) (.index (grouped value t) (grouped index i))
        (⟨[.bounds], []⟩ ++ (m ++ n))
  | conditional (ht : Lowers v test t k) (hb : Lowers v body b m) (ho : Lowers v orelse o n) :
      Lowers v (.conditional s test body orelse)
        (.paren (.conditional (grouped test t) (grouped body b) (grouped orelse o))) (k ++ (m ++ n))

inductive LowersAll (v : Verifier) : List Expr → List Term → Notes → Prop
  | nil : LowersAll v [] [] .none
  | cons (h : Lowers v e t m) (hs : LowersAll v es ts n) : LowersAll v (e :: es) (t :: ts) (m ++ n)

end

open Lowering

variable {v : Verifier}

section

variable {s : Span} {t : Term} {ts : List Term} {n : Notes}

theorem Lowers.of_constantTerm {describe : String} {c : Constant}
    (h : constantTerm describe c = Except.ok (t, n)) :
    Lowers v (.constant s c) t n := by
  cases c
  case int    => obtain ⟨rfl, rfl⟩ := pure_eq_ok h; exact .int
  case float  => obtain ⟨rfl, rfl⟩ := pure_eq_ok h; exact .float
  case str    => obtain ⟨rfl, rfl⟩ := pure_eq_ok h; exact .str
  case bool   => obtain ⟨rfl, rfl⟩ := pure_eq_ok h; exact .truth
  case none   => obtain ⟨rfl, rfl⟩ := pure_eq_ok h; exact .none
  all_goals cases h

theorem Lowers.of_lowerCall {func : Expr} {args : List Expr} {us : List Term} {m : Notes}
    (hs : LowersAll v args us m) (h : lowerCall v func (args.zipWith bare us) = Except.ok (t, n)) :
    Lowers v (.call s func args []) t (m ++ n) := by
  unfold lowerCall at h
  split at h
  case h_1 p hp =>
    split at h
    case isTrue ha =>
      obtain ⟨rfl, rfl⟩ := pure_eq_ok h
      simpa using Lowers.assume (ha ▸ hp) hs
    case isFalse =>
      split at h
      case isTrue hn =>
        obtain ⟨_, hp', rfl⟩ := bind_pure_eq_ok h
        cases hp'
        exact .nondet hp hn hs
      case isFalse => cases h
  case h_2 hp =>
    cases func
    case name =>
      obtain ⟨rfl, rfl⟩ := pure_eq_ok h
      simpa using Lowers.call hp hs
    all_goals cases h

theorem lowerCall_assume {func : Expr} (hp : v.primitive? func = some "assume") :
    lowerCall v func ts = Except.ok (.call "__ESBMC_assume" ts, .none) := by
  simp only [lowerCall, hp, if_true]
  rfl

theorem Verifier.ne_assume_of_isNondet {p : String} (hn : isNondet p) : p ≠ "assume" := by
  rintro rfl
  revert hn
  decide

theorem lowerCall_nondet {func : Expr} {p : String} (hp : v.primitive? func = some p)
    (hn : Verifier.isNondet p) : lowerCall v func ts = Except.ok (.call p [], ⟨[], [p]⟩) := by
  have ha := Verifier.ne_assume_of_isNondet hn
  simp only [lowerCall, hp, ha, hn, if_true, if_false]
  rfl

theorem lowerCall_name {ident : String} (hp : v.primitive? (.name s ident) = Option.none) :
    lowerCall v (.name s ident) ts = Except.ok (callTerm ident ts, .none) := by
  simp only [lowerCall, hp]
  rfl

end

mutual

theorem Lowers.of_lowerOpen : (e : Expr) → {t : Term} → {n : Notes} →
    lowerOpen v e = Except.ok (t, n) → Lowers v e t n
  | .name .., _, _, h => by
    obtain ⟨rfl, rfl⟩ := pure_eq_ok h
    exact .name
  | .constant .., _, _, h => .of_constantTerm h
  | .binary _ left op right, _, _, h => by
    simp only [lowerOpen] at h
    split at h
    case h_1 => cases h
    case h_2 ho =>
      obtain ⟨_, h₁, rfl⟩ := note_bind_eq_ok h
      obtain ⟨_, _, _, hl, h₂, rfl⟩ := bind_eq_ok h₁
      obtain ⟨_, hr, rfl⟩ := bind_pure_eq_ok h₂
      exact .binary ho (.of_lowerOpen left hl) (.of_lowerOpen right hr)
  | .unary _ _ operand, _, _, h => by
    obtain ⟨_, ho, rfl⟩ := bind_pure_eq_ok h
    exact .unary <| .of_lowerOpen operand ho
  | .bool _ _ values, _, _, h => by
    obtain ⟨_, hv, rfl⟩ := bind_pure_eq_ok h
    obtain ⟨_, hs, rfl⟩ := LowersAll.of_lowerOperands values hv
    exact .junction hs
  | .compare _ left links, _, _, h => by
    obtain ⟨_, _, _, hl, h₁, rfl⟩ := bind_eq_ok h
    obtain ⟨_, hs, rfl⟩ := bind_pure_eq_ok h₁
    obtain ⟨_, ha, rfl⟩ := LowersAll.of_lowerLinks links hs
    exact .compare (.of_lowerOpen left hl) ha
  | .call _ _ args keywords, _, _, h => by
    simp only [lowerOpen] at h
    split at h
    case isTrue hk =>
      obtain ⟨_, _, _, ha, hc, rfl⟩ := bind_eq_ok h
      obtain ⟨_, hs, rfl⟩ := LowersAll.of_lowerArgs args ha
      obtain rfl := List.isEmpty_iff.mp hk
      exact .of_lowerCall hs hc
    case isFalse => cases h
  | .attr _ value _, _, _, h => by
    simp only [lowerOpen] at h
    split at h
    case isTrue => cases h
    case isFalse hr =>
      obtain ⟨_, h₁, rfl⟩ := note_bind_eq_ok h
      obtain ⟨_, hv, rfl⟩ := bind_pure_eq_ok h₁
      exact .attr hr <| .of_lowerOpen value hv
  | .subscript _ value index, _, _, h => by
    simp only [lowerOpen] at h
    split at h
    case isTrue => cases h
    case isFalse hi =>
      obtain ⟨_, h₁, rfl⟩ := note_bind_eq_ok h
      obtain ⟨_, _, _, hv, h₂, rfl⟩ := bind_eq_ok h₁
      obtain ⟨_, hx, rfl⟩ := bind_pure_eq_ok h₂
      exact .subscript hi (.of_lowerOpen value hv) (.of_lowerOpen index hx)
  | .conditional _ test body orelse, _, _, h => by
    obtain ⟨_, _, _, ht, h₁, rfl⟩ := bind_eq_ok h
    obtain ⟨_, _, _, hb, h₂, rfl⟩ := bind_eq_ok h₁
    obtain ⟨_, ho, rfl⟩ := bind_pure_eq_ok h₂
    exact .conditional (.of_lowerOpen test ht) (.of_lowerOpen body hb) (.of_lowerOpen orelse ho)
  | .slice .., _, _, h | .starred .., _, _, h | .tuple .., _, _, h | .list .., _, _, h
  | .set .., _, _, h | .dict .., _, _, h | .lambda .., _, _, h | .listComp .., _, _, h
  | .setComp .., _, _, h | .dictComp .., _, _, h | .generator .., _, _, h | .named .., _, _, h
  | .await .., _, _, h | .yield .., _, _, h | .yieldFrom .., _, _, h => by cases h

theorem LowersAll.of_lowerOperands : (es : List Expr) → {ts : List Term} → {n : Notes} →
    lowerOperands v es = Except.ok (ts, n) → ∃ us, LowersAll v es us n ∧ es.zipWith grouped us = ts
  | [], _, _, h => by
    obtain ⟨rfl, rfl⟩ := pure_eq_ok h
    exact ⟨[], .nil, rfl⟩
  | e :: es, _, _, h => by
    obtain ⟨t, _, _, he, h₁, rfl⟩ := bind_eq_ok h
    obtain ⟨_, hs, rfl⟩ := bind_pure_eq_ok h₁
    obtain ⟨us, ha, rfl⟩ := LowersAll.of_lowerOperands es hs
    exact ⟨t :: us, .cons (.of_lowerOpen e he) ha, rfl⟩

theorem LowersAll.of_lowerArgs : (es : List Expr) → {ts : List Term} → {n : Notes} →
    lowerArgs v es = Except.ok (ts, n) → ∃ us, LowersAll v es us n ∧ es.zipWith bare us = ts
  | [], _, _, h => by
    obtain ⟨rfl, rfl⟩ := pure_eq_ok h
    exact ⟨[], .nil, rfl⟩
  | e :: es, _, _, h => by
    obtain ⟨t, _, _, he, h₁, rfl⟩ := bind_eq_ok h
    obtain ⟨_, hs, rfl⟩ := bind_pure_eq_ok h₁
    obtain ⟨us, ha, rfl⟩ := LowersAll.of_lowerArgs es hs
    exact ⟨t :: us, .cons (.of_lowerOpen e he) ha, rfl⟩

theorem LowersAll.of_lowerLinks : (ls : List (CompareOp × Expr)) →
    {ts : List (CompareOp × Term)} → {n : Notes} → lowerLinks v ls = Except.ok (ts, n) →
    ∃ us, LowersAll v (ls.map Prod.snd) us n ∧ linked ls us = ts
  | [], _, _, h => by
    obtain ⟨rfl, rfl⟩ := pure_eq_ok h
    exact ⟨[], .nil, rfl⟩
  | (_, e) :: ls, _, _, h => by
    obtain ⟨t, _, _, he, h₁, rfl⟩ := bind_eq_ok h
    obtain ⟨_, hs, rfl⟩ := bind_pure_eq_ok h₁
    obtain ⟨us, ha, rfl⟩ := LowersAll.of_lowerLinks ls hs
    exact ⟨t :: us, .cons (.of_lowerOpen e he) ha, rfl⟩

end

mutual

theorem Lowers.lowerOpen_eq : Lowers v e t n → lowerOpen v e = Except.ok (t, n)
  | .name | .int | .float | .str | .truth | .none => rfl
  | .binary ho hl hr => by
    simp only [lowerOpen, ho]
    exact bind_ok rfl <| bind_ok hl.lowerOpen_eq <| bind_pure_ok hr.lowerOpen_eq
  | .unary h => bind_pure_ok h.lowerOpen_eq
  | .junction h => bind_pure_ok h.lowerOperands_eq
  | .compare hl hs => bind_ok hl.lowerOpen_eq <| bind_pure_ok (hs.lowerLinks_eq _ rfl)
  | .assume hp hs => by
    have h := bind_ok hs.lowerArgs_eq (lowerCall_assume hp)
    rwa [Notes.append_none] at h
  | .nondet hp hn hs => bind_ok hs.lowerArgs_eq (lowerCall_nondet hp hn)
  | .call hp hs => by
    have h := bind_ok hs.lowerArgs_eq (lowerCall_name hp)
    rwa [Notes.append_none] at h
  | .attr hr h => by
    simp only [lowerOpen, hr]
    exact bind_ok rfl <| bind_pure_ok h.lowerOpen_eq
  | .subscript hi h hx => by
    simp only [lowerOpen, hi]
    exact bind_ok rfl <| bind_ok h.lowerOpen_eq <| bind_pure_ok hx.lowerOpen_eq
  | .conditional ht hb ho =>
    bind_ok ht.lowerOpen_eq <| bind_ok hb.lowerOpen_eq <| bind_pure_ok ho.lowerOpen_eq

theorem LowersAll.lowerOperands_eq :
    LowersAll v es ts n → lowerOperands v es = Except.ok (es.zipWith grouped ts, n)
  | .nil => rfl
  | .cons h hs => bind_ok h.lowerOpen_eq <| bind_pure_ok hs.lowerOperands_eq

theorem LowersAll.lowerArgs_eq :
    LowersAll v es ts n → lowerArgs v es = Except.ok (es.zipWith bare ts, n)
  | .nil => rfl
  | .cons h hs => bind_ok h.lowerOpen_eq <| bind_pure_ok hs.lowerArgs_eq

theorem LowersAll.lowerLinks_eq : LowersAll v es ts n → (links : List (CompareOp × Expr)) →
    links.map Prod.snd = es → lowerLinks v links = Except.ok (linked links ts, n)
  | .nil, [], _ => rfl
  | .cons h hs, _ :: links, hl => by
    obtain ⟨rfl, ht⟩ := List.cons_eq_cons.mp hl
    exact bind_ok h.lowerOpen_eq <| bind_pure_ok (hs.lowerLinks_eq links ht)

end

theorem lowerOpen_eq_ok_iff {e : Expr} {t : Term} {n : Notes} :
    lowerOpen v e = Except.ok (t, n) ↔ Lowers v e t n :=
  ⟨.of_lowerOpen e, Lowers.lowerOpen_eq⟩

theorem lowerOpen_bind_pure_eq_ok_iff {e : Expr} {t : Term} {n : Notes} {f : Term → Term} :
    (lowerOpen v e >>= fun u => pure (f u)) = Except.ok (t, n) ↔ ∃ u, Lowers v e u n ∧ f u = t := by
  constructor
  case mp =>
    intro h
    obtain ⟨u, hu, ht⟩ := bind_pure_eq_ok h
    exact ⟨u, .of_lowerOpen e hu, ht⟩
  case mpr =>
    rintro ⟨u, hu, rfl⟩
    exact bind_pure_ok hu.lowerOpen_eq

theorem lower_eq_ok_iff {e : Expr} {t : Term} {n : Notes} :
    lower v e = Except.ok (t, n) ↔ ∃ u, Lowers v e u n ∧ grouped e u = t :=
  lowerOpen_bind_pure_eq_ok_iff

theorem lowerBare_eq_ok_iff {e : Expr} {t : Term} {n : Notes} :
    lowerBare v e = Except.ok (t, n) ↔ ∃ u, Lowers v e u n ∧ bare e u = t :=
  lowerOpen_bind_pure_eq_ok_iff

-- An expression has no term.
def Fails (v : Verifier) (e : Expr) (cause : Unsupported) : Prop :=
  lowerOpen v e = Except.error cause

theorem Fails.of_lower {e : Expr} {cause : Unsupported} (h : lower v e = Except.error cause) :
    Fails v e cause :=
  bind_pure_eq_error h

theorem Fails.of_lowerBare {e : Expr} {cause : Unsupported} (h : lowerBare v e = Except.error cause) :
    Fails v e cause :=
  bind_pure_eq_error h

theorem LowersAll.length_eq {es : List Expr} {ts : List Term} {n : Notes} (h : LowersAll v es ts n) :
    ts.length = es.length := by
  induction es generalizing ts n
  all_goals cases h
  case nil => rfl
  case cons hi _ _ _ _ _ hs => simp [hi hs]

-- What parentheses do not change is the same for operands and arguments as for their terms.
theorem LowersAll.map_zipWith {β : Type} {f : Expr → Term → Term} {g : Term → β} {es : List Expr}
    {ts : List Term} {n : Notes} (hf : ∀ e t, g (f e t) = g t) (h : LowersAll v es ts n) :
    (es.zipWith f ts).map g = ts.map g := by
  induction es generalizing ts n
  all_goals cases h
  case nil => rfl
  case cons hi _ _ _ _ _ hs => simp [hf, hi hs]

theorem LowersAll.of_mapM {es : List Expr} {ts : List Term} {n : Notes}
    (h : es.mapM (lower v) = Except.ok (ts, n)) : ∃ us, LowersAll v es us n ∧ es.zipWith grouped us = ts := by
  induction es generalizing ts n
  case nil =>
    obtain ⟨rfl, rfl⟩ := pure_eq_ok h
    exact ⟨[], .nil, rfl⟩
  case cons e es hi =>
    rw [List.mapM_cons] at h
    obtain ⟨_, _, _, he, h₁, rfl⟩ := bind_eq_ok h
    obtain ⟨_, hs, rfl⟩ := bind_pure_eq_ok h₁
    obtain ⟨t, ht, rfl⟩ := lower_eq_ok_iff.mp he
    obtain ⟨us, ha, rfl⟩ := hi hs
    exact ⟨t :: us, .cons ht ha, rfl⟩

theorem Lowering.mapM_eq_error {α β : Type} {f : α → Lowering β} {xs : List α} {cause : Unsupported}
    (h : xs.mapM f = Except.error cause) : ∃ x ∈ xs, f x = Except.error cause := by
  induction xs
  case nil => cases h
  case cons x xs hi =>
    rw [List.mapM_cons] at h
    obtain hx | ⟨_, _, _, hs⟩ := bind_eq_error h
    case inl => exact ⟨x, List.mem_cons_self, hx⟩
    case inr =>
      obtain ⟨y, hy, hf⟩ := hi (bind_pure_eq_error hs)
      exact ⟨y, List.mem_cons_of_mem _ hy, hf⟩

end PyVerify.Code
