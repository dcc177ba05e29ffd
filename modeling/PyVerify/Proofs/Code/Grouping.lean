import Mathlib.Data.List.Basic
import PyVerify.Proofs.Code.Literal
import PyVerify.Proofs.Code.Reader

namespace PyVerify.Code

-- A term as it is read where an operand is expected: the prefixes that it begins with, the innermost one first,
-- and what is behind them. A term that goes on behind an operand goes on with the latter.
structure Reading where
  prefixes : List Prefix
  core     : Operation

def Reading.operation (r : Reading) : Operation :=
  r.prefixes.foldl (fun x p => .lead p x) r.core

mutual

def Term.reading : Term → Reading
  | t@(.ident _) | t@(.int _) | t@(.float _) | t@(.str _) => ⟨[], .atom t.text⟩
  | .infix2 left op right => ⟨[], .infix2 left.reading.operation op right.reading.operation⟩
  | .joined op operands   => ⟨[], .joined op (readings operands)⟩
  | .sign op operand      => ⟨operand.reading.prefixes ++ [.sign op], operand.reading.core⟩
  | .cast type operand    => ⟨operand.reading.prefixes ++ [.cast type], operand.reading.core⟩
  | .paren inner          => ⟨[], inner.reading.operation⟩
  | .conditional test body orelse =>
    ⟨[], .conditional test.reading.operation body.reading.operation orelse.reading.operation⟩
  | .call func args       => ⟨[], .call (.atom func) (readings args)⟩
  | .index base index     => ⟨base.reading.prefixes, .index base.reading.core index.reading.operation⟩
  | .member base name     => ⟨base.reading.prefixes, .member base.reading.core name⟩

def readings : List Term → List Operation
  | []      => []
  | t :: ts => t.reading.operation :: readings ts

end

section

variable {t u w : Term} {ts : List Term}

theorem readings_eq : readings ts = ts.map fun t => t.reading.operation := by
  induction ts <;> simp_all [readings]

-- What begins with a prefix is no operation of another kind.
theorem Reading.operation_lead {r : Reading} (h : r.prefixes ≠ []) : ∃ p x, r.operation = .lead p x := by
  obtain ⟨ps, p, hp⟩ := List.eq_nil_or_concat' r.prefixes |>.resolve_left h
  exact ⟨p, _, by rw [operation, hp, List.foldl_append]; rfl⟩

@[simp] theorem operation_paren : (Term.paren t).reading.operation = t.reading.operation := rfl

@[simp] theorem operation_infix2 {op : InfixOp} :
    (Term.infix2 t op u).reading.operation = .infix2 t.reading.operation op u.reading.operation := rfl

@[simp] theorem operation_joined {op : InfixOp} :
    (Term.joined op ts).reading.operation = .joined op (readings ts) := rfl

@[simp] theorem operation_conditional :
    (Term.conditional t u w).reading.operation =
      .conditional t.reading.operation u.reading.operation w.reading.operation := rfl

@[simp] theorem operation_call {func : String} :
    (Term.call func ts).reading.operation = .call (.atom func) (readings ts) := rfl

@[simp] theorem operation_sign {op : SignOp} :
    (Term.sign op t).reading.operation = .lead (.sign op) t.reading.operation := by
  simp [Term.reading, Reading.operation]

@[simp] theorem operation_cast {type : CType} :
    (Term.cast type t).reading.operation = .lead (.cast type) t.reading.operation := by
  simp [Term.reading, Reading.operation]

@[simp] theorem readings_map_paren : readings (ts.map .paren) = readings ts := by
  simp [readings_eq]

@[simp] theorem length_readings : (readings ts).length = ts.length := by
  simp [readings_eq]

end

mutual

def Term.tokens : Term → List Token
  | .ident name           => [.word name]
  | t@(.int _) | t@(.str _) => [.literal t.text]
  | .float value          => [.ofFloat value]
  | .infix2 left op right => left.tokens ++ .mark (.infix2 op) :: right.tokens
  | .joined op operands   => [.mark (.infix2 op)].intercalate (tokensOf operands)
  | .sign op operand      => .mark op.mark :: operand.tokens
  | .cast type operand    => .mark .opening :: .type type :: .mark .closing :: operand.tokens
  | .paren inner          => .mark .opening :: (inner.tokens ++ [.mark .closing])
  | .conditional test body orelse =>
    test.tokens ++ .mark .question :: (body.tokens ++ .mark .colon :: orelse.tokens)
  | .call func args       =>
    .word func :: .mark .opening :: ([.mark .comma].intercalate (tokensOf args) ++ [.mark .closing])
  | .index base index     => base.tokens ++ .mark .openBracket :: (index.tokens ++ [.mark .closeBracket])
  | .member base name     => base.tokens ++ [.mark .arrow, .word name]

def tokensOf : List Term → List (List Token)
  | []      => []
  | t :: ts => t.tokens :: tokensOf ts

end

mutual

-- A term that is an operand to whatever stands around it.
inductive Term.IsOperand : Term → Prop
  | ident : IsOperand (.ident name)
  | int   : IsOperand (.int n)
  | float : IsOperand (.float x)
  | str   : IsOperand (.str body)
  | sign (h : IsOperand t) : IsOperand (.sign op t)
  | cast (h : IsOperand t) : IsOperand (.cast type t)
  | paren (h : IsExpression t) : IsOperand (.paren t)
  | call (h : ∀ t ∈ args, IsExpression t) : IsOperand (.call func args)
  | index (hb : IsOperand base) (hi : IsExpression i) : IsOperand (.index base i)
  | member (hb : IsOperand base) : IsOperand (.member base name)

-- A term that is an expression, with all the parentheses in it that its operators need.
inductive Term.IsExpression : Term → Prop
  | operand (h : IsOperand t) : IsExpression t
  | infix2 (hl : IsOperand l) (hr : IsOperand r) : IsExpression (.infix2 l op r)
  | joined (hn : ts ≠ []) (h : ∀ t ∈ ts, IsOperand t) : IsExpression (.joined op ts)
  | conditional (hc : IsOperand c) (hb : IsOperand b) (ho : IsOperand o) : IsExpression (.conditional c b o)

end

open Reader

section

variable {fs : List Frame} {ts us : List Token} {t : Term} {x c b : Operation} {level : Nat}

-- These tokens are read up to an operand, from which operators that bind this closely make one operation.
def Reads (level : Nat) (ts : List Token) (fs : List Frame) (x : Operation) : Prop :=
  ∃ gs y, run ts ⟨fs, none⟩ = some ⟨gs, some y⟩ ∧ ∀ l ≤ level, reduce l gs y = (fs, x)

namespace Reads

theorem of_reading (h : run ts ⟨fs, none⟩ = some ⟨t.reading.prefixes.map .lead ++ fs, some t.reading.core⟩)
    (hf : Fresh fs) : Reads level ts fs t.reading.operation :=
  ⟨_, _, h, fun _ _ => reduce_leads.trans hf.reduce_eq⟩

theorem mono {lower : Nat} (h : Reads level ts fs x) (hl : lower ≤ level) : Reads lower ts fs x := by
  obtain ⟨gs, y, hr, hx⟩ := h
  exact ⟨gs, y, hr, fun l hm => hx l <| Nat.le_trans hm hl⟩

theorem run_append (h : Reads level ts fs x) {m : Mark} {r : Reader}
    (hm : ∀ {gs y}, (∀ l ≤ level, reduce l gs y = (fs, x)) → follow gs y m = some r) :
    run (ts ++ .mark m :: us) ⟨fs, none⟩ = run us r := by
  obtain ⟨gs, y, hr, hl⟩ := h
  rw [Reader.run_append hr, run_mark, hm hl]
  rfl

theorem paren (h : Reads level ts (.paren :: fs) x) :
    run (ts ++ .mark .closing :: us) ⟨.paren :: fs, none⟩ = run us ⟨fs, some x⟩ :=
  h.run_append fun hl => by simp [follow, hl]

theorem index (h : Reads level ts (.index b :: fs) x) :
    run (ts ++ .mark .closeBracket :: us) ⟨.index b :: fs, none⟩ = run us ⟨fs, some (.index b x)⟩ :=
  h.run_append fun hl => by simp [follow, hl]

-- An operator of this level or a lower one has what was read on its left.
theorem infix2 {op : InfixOp} (h : Reads level ts fs x) (hl : op.level ≤ level) :
    run (ts ++ .mark (.infix2 op) :: us) ⟨fs, none⟩ = run us ⟨.infix2 x op :: fs, none⟩ :=
  h.run_append fun hr => by simp [follow, hr _ hl]

theorem question (h : Reads 1 ts fs x) :
    run (ts ++ .mark .question :: us) ⟨fs, none⟩ = run us ⟨.test x :: fs, none⟩ :=
  h.run_append fun hl => by simp [follow, hl]

theorem colon (h : Reads level ts (.test c :: fs) x) :
    run (ts ++ .mark .colon :: us) ⟨.test c :: fs, none⟩ = run us ⟨.branch c x :: fs, none⟩ :=
  h.run_append fun hl => by simp [follow, hl]

theorem args {func : Operation} {before : List Operation} (h : Reads level ts (.args func before :: fs) x) :
    run (ts ++ .mark .closing :: us) ⟨.args func before :: fs, none⟩ =
      run us ⟨fs, some (.call func (before ++ [x]))⟩ :=
  h.run_append fun hl => by simp [follow, hl]

theorem arg {func : Operation} {before : List Operation} (h : Reads level ts (.args func before :: fs) x) :
    run (ts ++ .mark .comma :: us) ⟨.args func before :: fs, none⟩ =
      run us ⟨.args func (before ++ [x]) :: fs, none⟩ :=
  h.run_append fun hl => by simp [follow, hl]

end Reads

-- A term is read as an operand, wherever one is expected.
def Term.Runs (t : Term) : Prop :=
  ∀ fs, Ready fs →
    run t.tokens ⟨fs, none⟩ = some ⟨t.reading.prefixes.map .lead ++ fs, some t.reading.core⟩

theorem Term.Runs.reads (h : t.Runs) (hf : Fresh fs) : Reads level t.tokens fs t.reading.operation :=
  .of_reading (h fs hf.ready) hf

theorem Reads.infix2_operand {op : InfixOp} (h : Reads level ts fs x) (hl : op.level ≤ level) (hf : Fresh fs)
    (ht : t.Runs) : Reads op.level (ts ++ .mark (.infix2 op) :: t.tokens) fs (.infix2 x op t.reading.operation) := by
  refine ⟨_, _, (h.infix2 hl).trans (ht _ <| by simp [Ready]), fun l hl => ?_⟩
  rw [reduce_leads, reduce, if_pos hl]
  exact hf.reduce_eq

theorem intercalate_cons {α : Type} {x : α} {xs : List α} {xss : List (List α)} :
    [x].intercalate (xs :: xss) = xs ++ xss.flatMap (x :: ·) := by
  induction xss generalizing xs <;> simp_all

theorem Reads.joined {op : InfixOp} {operands : List Term} (h : Reads op.level ts fs x) (hf : Fresh fs)
    (ht : ∀ t ∈ operands, t.Runs) :
    Reads op.level (ts ++ (tokensOf operands).flatMap (.mark (.infix2 op) :: ·)) fs
      ((readings operands).foldl (.infix2 · op ·) x) := by
  induction operands generalizing ts x
  case nil => simpa [tokensOf, readings] using h
  case cons t operands hi =>
    rw [List.forall_mem_cons] at ht
    simpa [tokensOf, readings] using hi (h.infix2_operand (Nat.le_refl _) hf ht.left) ht.right

theorem Reads.conditional {c b o : Term} (hc : c.Runs) (hb : b.Runs) (ho : o.Runs) (hf : Fresh fs) :
    Reads 0 (Term.conditional c b o).tokens fs (Term.conditional c b o).reading.operation := by
  have hc : Reads 1 c.tokens fs c.reading.operation := hc.reads hf
  have hb : Reads 0 b.tokens (.test c.reading.operation :: fs) b.reading.operation := hb.reads (by simp [Fresh])
  refine ⟨_, _, hc.question.trans <| hb.colon.trans <| ho _ (by simp [Ready]), fun l hl => ?_⟩
  rw [reduce_leads, reduce, if_pos (Nat.le_zero.mp hl)]
  exact hf.reduce_eq

-- The arguments of a call, from the first one that is left to the closing parenthesis.
theorem run_args {func : Operation} {before : List Operation} {args : List Term}
    (h : ∀ t ∈ args, ∀ {fs}, Fresh fs → Reads 0 t.tokens fs t.reading.operation)
    (hn : before = [] ∨ args ≠ []) :
    run ([.mark .comma].intercalate (tokensOf args) ++ .mark .closing :: us) ⟨.args func before :: fs, none⟩ =
      run us ⟨fs, some (.call func (before ++ readings args))⟩ := by
  induction args generalizing before
  case nil =>
    obtain rfl : before = [] := by simpa using hn
    rfl
  case cons t args hi =>
    rw [List.forall_mem_cons] at h
    have ht : Reads 0 t.tokens (.args func before :: fs) t.reading.operation := h.left (by simp [Fresh])
    cases args
    case nil => simpa [tokensOf, readings] using ht.args
    case cons u args =>
      have := ht.arg.trans (hi h.right (.inr <| List.cons_ne_nil _ _))
      simpa [tokensOf, readings] using this

end

mutual

theorem Term.IsOperand.runs : {t : Term} → t.IsOperand → t.Runs
  | _, .ident => fun _ hf => run_expect <| expect_word hf
  | _, .int | _, .str => fun _ hf => run_expect <| expect_literal hf
  | .float x, .float => by
    intro fs hf
    unfold tokens Token.ofFloat
    split
    case isTrue  => exact run_expect <| expect_word hf
    case isFalse => exact run_expect <| expect_literal hf
  | _, .sign h => by
    intro fs hf
    refine (run_expect <| expect_sign hf).trans ?_
    simpa [reading] using h.runs (.lead _ :: fs) (by simp [Ready])
  | .cast type t, .cast h => by
    intro fs hf
    refine (run_expect <| expect_opening hf).trans <| (run_expect rfl).trans <| (run_expect rfl).trans ?_
    simpa [reading] using h.runs (.lead (.cast type) :: fs) (by simp [Ready])
  | _, .paren h => by
    intro fs hf
    refine (run_expect <| expect_opening hf).trans ?_
    exact (h.reads <| by simp [Fresh]).paren
  | .call func args, .call h => by
    intro fs hf
    refine (run_expect <| expect_word hf).trans ?_
    exact run_args (fun t ht => (h t ht).reads) (.inl rfl)
  | _, .index hb hi => by
    intro fs hf
    exact (run_append <| hb.runs fs hf).trans (hi.reads <| by simp [Fresh]).index
  | _, .member hb => by
    intro fs hf
    exact run_append <| hb.runs fs hf

theorem Term.IsExpression.reads : {t : Term} → t.IsExpression → {fs : List Frame} → Fresh fs →
    Reads 0 t.tokens fs t.reading.operation
  | _, .operand h, _, hf => h.runs.reads hf
  | .infix2 _ op _, .infix2 hl hr, _, hf =>
    ((hl.runs.reads hf).infix2_operand (Nat.le_refl op.level) hf hr.runs).mono <| Nat.zero_le _
  | .joined op [], .joined hn h, _, hf => (hn rfl).elim
  | .joined op (t :: ts), .joined hn h, _, hf => by
    have ht : Reads op.level t.tokens _ t.reading.operation := (h t List.mem_cons_self).runs.reads hf
    have := ht.joined hf fun u hu => (h u <| List.mem_cons_of_mem _ hu).runs
    rw [tokens, tokensOf, intercalate_cons]
    exact this.mono <| Nat.zero_le _
  | _, .conditional hc hb ho, _, hf => .conditional hc.runs hb.runs ho.runs hf

end

end PyVerify.Code
