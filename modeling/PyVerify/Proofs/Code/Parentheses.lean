import Mathlib.Data.List.Forall2
import PyVerify.Proofs.Code.Lowering
import PyVerify.Proofs.Code.Spelling
import PyVerify.Proofs.Tree.Part

namespace PyVerify

open Code

-- Names, literals and operands are as the parser makes them, and no name is a word that C keeps to itself.
def Expr.IsSpelled (v : Verifier) : Expr → Prop
  | .name _ id               => isIdentifier (identifier id)
  | .constant _ (.float x)   => ¬x.isNegative
  | .constant _ (.str body)  => isEscaped body.toList
  | .bool _ _ values         => values ≠ []
  | .compare _ _ links       => links ≠ []
  | .call _ func _ _         => ∀ p ∈ v.primitive? func, isIdentifier p
  | .attr _ _ i              => isIdentifier i.text
  | _                        => True

namespace Code

variable {v : Verifier}

-- A term is put together so that each of its parts is read as it is written, also where it is an operand.
structure Fits (e : Expr) (t : Term) : Prop where
  expression : t.IsExpression
  operand    : (grouped e t).IsOperand
  written    : t.Written
  begins     : (grouped e t).Begins

namespace Fits

section

variable {e : Expr} {t : Term} {es : List Expr} {ts : List Term}

theorem of_operand (hg : grouped e t = t) (ho : t.IsOperand) (hw : t.Written) (hb : t.Begins) : Fits e t :=
  ⟨.operand ho, by rwa [hg], hw, by rwa [hg]⟩

theorem of_paren (hg : grouped e t = .paren t) (he : t.IsExpression) (hw : t.Written) : Fits e t :=
  ⟨he, hg ▸ .paren he, hw, hg ▸ .paren⟩

theorem grouped_written (h : Fits e t) : (grouped e t).Written := by
  unfold grouped
  split
  case h_3 => exact h.written
  all_goals exact .paren h.written

theorem bare_written (h : Fits e t) : (bare e t).Written := by
  unfold bare
  split
  case h_1 => exact .paren h.written
  case h_2 => exact h.written

theorem bare_expression (h : Fits e t) : (bare e t).IsExpression := by
  unfold bare
  split
  case h_1 => exact .operand <| .paren h.expression
  case h_2 => exact h.expression

theorem forall_zipWith {P : Term → Prop} {f : Expr → Term → Term} (h : List.Forall₂ Fits es ts)
    (hf : ∀ {e t}, Fits e t → P (f e t)) : ∀ t ∈ es.zipWith f ts, P t := by
  induction h
  case nil => simp
  case cons h _ hi => simpa using ⟨hf h, hi⟩

theorem signTerm {op : UnaryOp} {s : Span} (h : Fits e t) : Fits (.unary s op e) (signTerm op (grouped e t)) := by
  cases op
  case not =>
    refine .of_operand rfl (.sign <| .paren <| .operand h.operand) (.sign (.paren h.grouped_written) .paren) ?_
    exact ⟨'!', by simp [Code.signTerm, Term.text, SignOp.text], by decide⟩
  all_goals
    exact .of_operand rfl (.paren <| .operand <| .sign h.operand) (.paren <| .sign h.grouped_written h.begins) .paren

theorem junction {op : BoolOp} {s : Span} (hn : es ≠ []) (h : List.Forall₂ Fits es ts) :
    Fits (.bool s op es) (.paren (.joined (boolOp op) ((es.zipWith grouped ts).map .paren))) := by
  refine .of_operand rfl (.paren <| .joined ?_ ?_) (.paren <| .joined ?_) .paren
  · cases h
    case nil => exact (hn rfl).elim
    case cons => exact List.cons_ne_nil _ _
  · exact List.forall_mem_map.mpr <| forall_zipWith h fun h => .paren <| .operand h.operand
  · exact List.forall_mem_map.mpr <| forall_zipWith h fun h => .paren h.grouped_written

theorem forall_linkTerms {left : Expr} {links : List (CompareOp × Expr)} (h : Fits left t)
    (hs : List.Forall₂ Fits (links.map Prod.snd) ts) :
    ∀ u ∈ linkTerms (grouped left t) (linked links ts), u.IsExpression ∧ u.Written := by
  induction links generalizing left t ts
  case nil => simp [linked, linkTerms]
  case cons link links hi =>
    obtain _ | ⟨hx, hs⟩ := hs
    refine List.forall_mem_cons.mpr ⟨⟨?_, ?_⟩, hi hx hs⟩
    · exact .infix2 h.operand hx.operand
    · exact .infix2 h.grouped_written hx.grouped_written

theorem compare {left : Expr} {links : List (CompareOp × Expr)} {s : Span} (hn : links ≠ []) (h : Fits left t)
    (hs : List.Forall₂ Fits (links.map Prod.snd) ts) :
    Fits (.compare s left links) (chain (grouped left t) (linked links ts)) := by
  have hl := forall_linkTerms h hs
  obtain _ | ⟨link, _ | ⟨next, links⟩⟩ := links
  case nil => exact (hn rfl).elim
  case cons.nil =>
    obtain _ | ⟨_, _ | _⟩ := hs
    obtain ⟨he, hw⟩ := List.forall_mem_singleton.mp hl
    exact .of_paren rfl he hw
  case cons.cons =>
    obtain _ | ⟨_, _ | _⟩ := hs
    refine .of_operand rfl (.paren <| .joined (List.cons_ne_nil _ _) ?_) (.paren <| .joined ?_) .paren
    · exact List.forall_mem_map.mpr fun u hu => .paren (hl u hu).left
    · exact List.forall_mem_map.mpr fun u hu => .paren (hl u hu).right

theorem call {func : Expr} {name : String} {s : Span} (hf : isIdentifier name)
    (h : ∀ t ∈ ts, t.IsExpression ∧ t.Written) : Fits (.call s func es []) (.call name ts) := by
  refine .of_operand rfl (.call fun t ht => (h t ht).left) (.call hf fun t ht => (h t ht).right) ?_
  exact .append (t := .ident name) (.of_isWord <| isWord_of_isIdentifier hf) (by simp [Term.text])

theorem callTerm {func : Expr} {name : String} {s : Span} (hf : isIdentifier (identifier name))
    (h : ∀ t ∈ ts, t.IsExpression ∧ t.Written) : Fits (.call s func es []) (callTerm name ts) := by
  obtain ⟨t, rfl, hc⟩ | ⟨-, hc⟩ := callTerm_cases name ts
  case inr => exact hc ▸ call hf h
  obtain ⟨he, hw⟩ := List.forall_mem_singleton.mp h
  obtain ⟨-, hc⟩ | ⟨-, hc⟩ | ⟨-, hc⟩ := hc
  case inr.inr =>
    exact hc ▸ .of_operand rfl (.paren <| .infix2 (.paren he) .int) (.paren <| .infix2 (.paren hw) .int) .paren
  all_goals exact hc ▸ .of_operand rfl (.cast <| .paren he) (.cast (by decide) <| .paren hw) .cast

end

end Fits

mutual

theorem Lowers.fits : Lowers v e t n → e.Every (Expr.IsSpelled v) → Fits e t
  | .name, hs => .of_operand rfl .ident (.ident hs.self) (.of_isWord <| isWord_of_isIdentifier hs.self)
  | .int, _ | .truth, _ | .none, _ => .of_operand rfl .int .int (.of_isNumber <| .nat _)
  | .float, hs => .of_operand rfl .float (.float hs.self) (.float hs.self)
  | .str, hs => .of_operand rfl .str (.str hs.self) .str
  | .binary _ hl hr, hs => by
    have hl := hl.fits <| hs.part <| by simp [Expr.children]
    have hr := hr.fits <| hs.part <| by simp [Expr.children]
    exact .of_paren rfl (.infix2 hl.operand hr.operand) (.infix2 hl.grouped_written hr.grouped_written)
  | .unary h, hs => .signTerm <| h.fits <| hs.part <| by simp [Expr.children]
  | .junction h, hs => .junction hs.self <| h.fits fun _ hx => hs.part hx
  | .compare h hl, hs => by
    have h := h.fits <| hs.part List.mem_cons_self
    exact .compare hs.self h <| hl.fits fun _ hx => hs.part <| List.mem_cons_of_mem _ hx
  | .assume _ h, hs => by
    have ha := h.fits fun x hx => hs.part <| by simp [Expr.children, hx]
    exact .call (by decide) <| Fits.forall_zipWith ha fun h => ⟨h.bare_expression, h.bare_written⟩
  | .nondet hp _ _, hs => .call (hs.self _ hp) (by simp)
  | .call _ h, hs => by
    have hf := hs.part <| List.mem_append_left _ List.mem_cons_self
    have ha := h.fits fun x hx => hs.part <| by simp [Expr.children, hx]
    exact .callTerm hf.self <| Fits.forall_zipWith ha fun h => ⟨h.bare_expression, h.bare_written⟩
  | .attr _ h, hs => by
    have h := h.fits <| hs.part <| by simp [Expr.children]
    exact .of_operand rfl (.member h.operand) (.member h.grouped_written hs.self) (h.begins.append <| by simp [Term.text])
  | .subscript _ h hx, hs => by
    have h := h.fits <| hs.part <| by simp [Expr.children]
    have hx := hx.fits <| hs.part <| by simp [Expr.children]
    refine .of_operand rfl (.index h.operand <| .operand hx.operand) (.index h.grouped_written hx.grouped_written) ?_
    exact h.begins.append <| by simp [Term.text]
  | .conditional ht hb ho, hs => by
    have ht := ht.fits <| hs.part <| by simp [Expr.children]
    have hb := hb.fits <| hs.part <| by simp [Expr.children]
    have ho := ho.fits <| hs.part <| by simp [Expr.children]
    refine .of_operand rfl (.paren <| .conditional ht.operand hb.operand ho.operand) (.paren ?_) .paren
    exact .conditional ht.grouped_written hb.grouped_written ho.grouped_written

theorem LowersAll.fits :
    LowersAll v es ts n → (∀ e ∈ es, e.Every (Expr.IsSpelled v)) → List.Forall₂ Fits es ts
  | .nil, _ => .nil
  | .cons h ha, hs => by
    rw [List.forall_mem_cons] at hs
    exact .cons (h.fits hs.left) (ha.fits hs.right)

end

end Code
end PyVerify
