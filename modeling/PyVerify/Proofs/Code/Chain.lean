import PyVerify.Proofs.Code.Lowering

namespace PyVerify.Code

variable {v : Verifier}

-- Each operator between the operand at its own position and the one behind; none if there is no such operand.
def linksAt (operands : List Term) (ops : List CompareOp) : Option (List Term) :=
  ops.zipIdx.mapM fun (op, i) => do return .infix2 (← operands[i]?) (compareOp op) (← operands[i + 1]?)

-- A comparison with its operands in a list, where each operator finds its own by their positions.
def chainAt? (v : Verifier) (left : Expr) (links : List (CompareOp × Expr)) : Lowering (Option Term) := do
  let operands ← (left :: links.map Prod.snd).mapM (lower v)
  return (linksAt operands <| links.map Prod.fst).map fun
    | [link] => link
    | terms => .paren (.joined .and (terms.map .paren))

theorem linksAt_eq_linkTerms (left : Term) (links : List (CompareOp × Term)) :
    linksAt (left :: links.map Prod.snd) (links.map Prod.fst) = some (linkTerms left links) := by
  -- The operands before the first one are those of the links that are done.
  suffices h : ∀ done, ((links.map Prod.fst).zipIdx done.length).mapM (fun (op, i) => do
      return Term.infix2 (← (done ++ left :: links.map Prod.snd)[i]?) (compareOp op)
        (← (done ++ left :: links.map Prod.snd)[i + 1]?)) = some (linkTerms left links) from h []
  induction links generalizing left
  case nil => exact fun _ => rfl
  case cons link links hi =>
    intro done
    have hl := hi link.snd (done ++ [left])
    rw [List.length_append, List.append_assoc] at hl
    simp_all [linkTerms]

theorem lowerLinks_eq_mapM {links : List (CompareOp × Expr)} :
    lowerLinks v links = (links.map Prod.fst).zip <$> (links.map Prod.snd).mapM (lower v) := by
  induction links
  case nil => rfl
  case cons link links hi =>
    obtain ⟨op, e⟩ := link
    simp [lowerLinks, hi, lower]

namespace Lowering

variable {α β : Type}

theorem bind_congr_ok {x : Lowering α} {f g : α → Lowering β} (h : ∀ a n, x = Except.ok (a, n) → f a = g a) :
    x >>= f = x >>= g := by
  obtain _ | ⟨a, n⟩ := x
  case error => rfl
  case ok =>
    simp only [bind, h a n rfl]

theorem length_of_mapM {f : α → Lowering β} {as : List α} {bs : List β} {n : Notes} (h : as.mapM f = Except.ok (bs, n)) :
    bs.length = as.length := by
  induction as generalizing bs n
  case nil =>
    obtain ⟨rfl, -⟩ := pure_eq_ok h
    rfl
  case cons hi =>
    rw [List.mapM_cons] at h
    obtain ⟨_, _, _, -, h, -⟩ := bind_eq_ok h
    obtain ⟨_, hs, rfl⟩ := bind_pure_eq_ok h
    exact congrArg _ (hi hs)

end Lowering

-- No operand of a comparison is out of reach.
theorem chainAt?_eq_some {s : Span} {left : Expr} {links : List (CompareOp × Expr)} :
    chainAt? v left links = some <$> lowerOpen v (.compare s left links) := by
  simp only [chainAt?, lowerOpen, lowerLinks_eq_mapM, lower, List.mapM_cons, map_eq_pure_bind, bind_assoc, pure_bind]
  refine bind_congr fun l => Lowering.bind_congr_ok fun ts n ht => congrArg pure ?_
  have hs := linksAt_eq_linkTerms (grouped left l) <| (links.map Prod.fst).zip ts
  have hl : ts.length = links.length := by simpa using Lowering.length_of_mapM ht
  rw [List.map_snd_zip (by simp [hl]), List.map_fst_zip (by simp [hl])] at hs
  rw [hs]
  rfl

end PyVerify.Code
