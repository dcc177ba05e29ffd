import PyVerify.Proofs.Token.Append

namespace PyVerify.Token

variable {quote c : Char} {cs ds es margin markers body : List Char} {ls : List Lexeme} {n : Nat} {r : Piece × Nat}

namespace Quotation

theorem longBody_cons (hc : ¬128 ≤ c.toNat) (hb : c ≠ '\\') : longBody quote (c :: cs) =
    if [quote, quote, quote].isPrefixOf (c :: cs) then .closed 0 else (longBody quote cs).extend 1 := by
  rw [longBody.eq_def]
  simp only [hc, hb, if_false]

theorem longBody_split (hc : 128 ≤ c.toNat) : longBody quote (c :: cs) = .split := by
  rw [longBody.eq_def]
  simp only [hc, if_true]

theorem longBody_of_append (h : longBody quote (cs ++ ds) = .closed n) (hn : n + 3 ≤ cs.length) : longBody quote cs = .closed n := by
  fun_induction longBody quote cs generalizing n
  case case1 | case3  => simp at hn
  case case2 hc       => simp [longBody_split hc] at h
  case case4 hd _     => simp [longBody, hd] at h
  case case5 hd hc hi =>
    simp only [longBody, List.cons_append, hd, hc, if_false, if_true] at h
    obtain ⟨m, hm, rfl⟩ := LongBody.extend_eq_closed h
    simp only [List.length_cons] at hn
    rw [hi hm <| by omega]
    rfl
  case case6 hc hb hq =>
    have hp := isPrefixOf_append_of_le ds (List.isPrefixOf_iff_prefix.mp hq).length_le
    rw [hq] at hp
    rwa [List.cons_append, longBody_cons hc hb, ← List.cons_append, if_pos hp] at h
  case case7 c cs hc hb hq hi =>
    rw [List.cons_append, longBody_cons hc hb, ← List.cons_append] at h
    split at h
    case isTrue hp =>
      cases h
      rw [isPrefixOf_append_of_le ds <| by simpa using hn] at hp
      exact (hq hp).elim
    case isFalse =>
      obtain ⟨m, hm, rfl⟩ := LongBody.extend_eq_closed h
      simp only [List.length_cons] at hn
      rw [hi hm <| by omega]
      rfl

-- A literal that ends within lines does not depend on what stands behind them.
theorem read_of_append (h : IsLines cs) (hq : isQuote quote) (hr : read quote (cs ++ ds) = .literal body n) (hn : n ≤ cs.length) :
    read quote cs = .literal body n := by
  unfold read at hr ⊢
  rw [isPrefixOf_append (.inl h) hq] at hr
  split at hr
  case isTrue hp =>
    obtain ⟨text, rfl⟩ := List.isPrefixOf_iff_prefix.mp hp
    rw [if_pos hp]
    simp only [List.cons_append, List.nil_append, List.drop_succ_cons, List.drop_zero] at hr ⊢
    split at hr <;> cases hr
    case h_1 m hb =>
      simp only [List.cons_append, List.nil_append, List.length_cons] at hn
      rw [longBody_of_append hb <| by omega]
      simp only
      rw [List.take_append_of_le_length <| by omega]
  case isFalse hp =>
    rw [if_neg hp]
    rw [lineBody_append h] at hr
    split at hr <;> cases hr
    case h_1 m hb =>
      rw [List.take_append_of_le_length <| Nat.le_of_succ_le hn]

-- A literal ends with its quote.
theorem mem_of_read (hr : read quote (cs ++ ds) = .literal body n) (hn : cs.length < n) : quote ∈ ds.take (n - cs.length) := by
  obtain ⟨k, rest, hk, he, hl⟩ := read_literal hr
  have hd : (quote :: (cs ++ ds)).take (n + 1) = quote :: (cs ++ ds.take (n - cs.length)) := by
    rw [List.take_succ_cons, List.take_append, List.take_of_length_le <| Nat.le_of_lt hn]
  have hq : (quote :: (cs ++ ds.take (n - cs.length))).getLast? = some quote := by
    rw [← hd, he, hl, List.take_left, List.getLast?_append, List.getLast?_replicate]
    obtain rfl | rfl := hk <;> rfl
  rw [← List.cons_append, List.getLast?_append] at hq
  obtain hq | ⟨hq, -⟩ := Option.or_eq_some_iff.mp hq
  case inl => exact List.mem_of_getLast? hq
  case inr =>
    have hs := congrArg List.length <| List.getLast?_eq_none_iff.mp hq
    have hm := congrArg List.length he
    simp only [List.length_take, List.length_nil] at hs
    simp only [List.length_append, List.length_cons] at hm hl
    omega

end Quotation

namespace Lexeme

theorem literal?_none_lines (h : IsLines cs) (hq : Quotation.isQuote quote) (hn : literal? markers quote (cs ++ ds) = none) :
    literal? markers quote (cs ++ es) = none := by
  unfold literal? at hn ⊢
  split at hn <;> cases hn
  case h_2 hr =>
    have hs : Quotation.read quote (cs ++ es) = .unclosed 0 := by
      simp only [Quotation.read] at hr ⊢
      rw [Quotation.isPrefixOf_append (.inl h) hq, Quotation.lineBody_append h] at hr ⊢
      split at hr
      case isTrue => split at hr <;> cases hr
      case isFalse hp =>
        rw [if_neg hp]
        split at hr <;> cases hr
        simp [*]
    simp only [hs]

theorem literal?_lines (h : IsLines cs) (hq : Quotation.isQuote quote) (hr : literal? markers quote (cs ++ ds) = some r)
    (hl : ¬isLast r.fst) : (r.snd ≤ cs.length + 1 ∧ literal? markers quote cs = some r) ∨ quote ∈ ds.take (r.snd - (cs.length + 1)) := by
  unfold literal? at hr
  split at hr <;> cases hr
  case h_1 body n hb =>
    obtain hn | hn := Nat.lt_or_ge cs.length n
    case inl =>
      refine .inr ?_
      rw [Nat.add_sub_add_right]
      exact Quotation.mem_of_read hb hn
    case inr =>
      refine .inl ⟨Nat.succ_le_succ hn, ?_⟩
      simp only [literal?, Quotation.read_of_append h hq hb hn]
  all_goals exact (hl rfl).elim

-- What is read of lines stays the same whatever stands behind them, unless a literal goes on behind them.
theorem read_lines (h : IsLines cs) (hl : ¬isLast (read (cs ++ ds)).fst) :
    ((read (cs ++ ds)).snd ≤ cs.length ∧ ∀ es, read (cs ++ es) = read (cs ++ ds)) ∨
      ∃ quote, Quotation.isQuote quote ∧ quote ∈ ds.take ((read (cs ++ ds)).snd - cs.length) := by
  by_cases hq : ∃ w quote after plain, IsQuoted cs w quote after plain
  case neg =>
    have hr (es : List Char) : IsLocal read cs es ∨ isLast (read cs).fst ∧ (IsLines cs → isLast (read (cs ++ es)).fst) :=
      (or_assoc.mpr <| read_cases (.inl h) h.ne_nil).resolve_right hq
    have hd := (hr ds).resolve_right fun ⟨_, hs⟩ => hl (hs h)
    refine .inl ⟨hd.append ▸ hd.le, fun es => ?_⟩
    have he := (hr es).resolve_right fun ⟨hs, _⟩ => hl (hd.append ▸ hs)
    rw [he.append, hd.append]
  case pos =>
    obtain ⟨w, quote, after, plain, hq⟩ := hq
    have ha := hq.isLines h
    have hn : cs.length = w.length + (after.length + 1) := by rw [hq.text, List.length_append, List.length_cons]
    have he := hq.read_eq ds
    cases hr : literal? w quote (after ++ ds)
    case none =>
      have hs (es : List Char) : read (cs ++ es) = plain := by
        rw [hq.read_eq, literal?_none_lines ha hq.isQuote hr]
        rfl
      rw [hs] at hl ⊢
      obtain ⟨hp, -⟩ | hp := hq.bare
      case inl => exact .inl ⟨by omega, hs⟩
      case inr => exact (hl hp).elim
    case some r =>
      replace he : read (cs ++ ds) = (r.fst, w.length + r.snd) := by simp [he, hr]
      rw [he] at hl ⊢
      obtain ⟨hm, hs⟩ | hm := literal?_lines ha hq.isQuote hr hl
      case inl =>
        refine .inl ⟨by simp only; omega, fun es => ?_⟩
        rw [hq.read_eq, (literal?_append (.inl ha) hq.isQuote hs hl).left]
        rfl
      case inr =>
        refine .inr ⟨quote, hq.isQuote, ?_⟩
        rwa [hn, Nat.add_sub_add_left]

theorem scan_cons (hl : ¬isLast (read (c :: cs)).fst) :
    scan (c :: cs) = ⟨(read (c :: cs)).fst, c :: cs.take ((read (c :: cs)).snd - 1)⟩ :: scan (cs.drop ((read (c :: cs)).snd - 1)) := by
  rw [scan]
  simp only [if_neg hl]

-- A text that begins with lines is cut at their end, if no quote follows there that could end a literal of theirs.
theorem scan_lines (h : cs = [] ∨ IsLines cs) (hp : ls <+: scan (cs ++ ds)) (hl : ∀ l ∈ ls, ¬isLast l.piece)
    (ht : ls.flatMap Lexeme.text = cs ++ margin) (hm : ∀ c ∈ margin, ¬Quotation.isQuote c) :
    ∃ done more, ls = done ++ more ∧ done.flatMap Lexeme.text = cs ∧ ∀ es, scan (cs ++ es) = done ++ scan es := by
  induction ls generalizing cs
  case nil =>
    obtain ⟨rfl, -⟩ := List.nil_eq_append_iff.mp ht
    exact ⟨[], [], rfl, rfl, fun _ => rfl⟩
  case cons l ls hi =>
    obtain rfl | h := h
    case inl => exact ⟨[], l :: ls, rfl, rfl, fun _ => rfl⟩
    obtain ⟨c, cs, rfl⟩ := List.exists_cons_of_ne_nil h.ne_nil
    have hr : ¬isLast (read (c :: cs ++ ds)).fst := by
      intro hr
      rw [List.cons_append, scan] at hp
      simp only [List.cons_append] at hr hp
      rw [if_pos hr] at hp
      cases (List.cons_prefix_cons.mp hp).left
      exact hl _ (.head _) hr
    have hs := read_lines h hr
    rw [List.cons_append] at hr hs hp
    rw [scan_cons hr] at hp
    generalize read (c :: (cs ++ ds)) = r at *
    rw [List.cons_prefix_cons] at hp
    obtain ⟨he, hp⟩ := hp
    subst he
    rw [List.flatMap_cons] at ht
    obtain ⟨hn, hs⟩ | ⟨quote, hq, hs⟩ := hs
    case inl =>
      obtain ⟨w, rest, rfl, hw⟩ : ∃ w rest, cs = w ++ rest ∧ r.snd - 1 = w.length :=
        ⟨_, _, (List.take_append_drop (r.snd - 1) cs).symm, (List.length_take_of_le <| Nat.sub_le_of_le_add hn).symm⟩
      have hc (es : List Char) : c :: (w ++ rest) ++ es = c :: (w ++ (rest ++ es)) := by simp
      have hd := h.drop (n := w.length + 1)
      simp only [hc, hw, List.append_assoc, List.take_left, List.drop_left, List.drop_succ_cons] at hs hp ht hd ⊢
      rw [List.cons_append] at ht
      have ht := List.append_cancel_left (List.cons.inj ht).right
      obtain ⟨done, more, rfl, rfl, he⟩ := hi hd hp (List.forall_mem_cons.mp hl).right ht
      refine ⟨_ :: done, more, rfl, by rw [List.flatMap_cons, List.cons_append], fun es => ?_⟩
      rw [scan_cons (by rwa [hs]), hs, hw, List.take_left, List.drop_left, he]
      rfl
    case inr =>
      rw [List.length_cons] at hs
      obtain hn | hn := Nat.lt_or_ge (cs.length + 1) r.snd
      case inr =>
        rw [Nat.sub_eq_zero_of_le hn] at hs
        cases hs
      case inl =>
        have hd : (cs ++ ds).take (r.snd - 1) = cs ++ ds.take (r.snd - (cs.length + 1)) := by
          rw [List.take_append, List.take_of_length_le <| by omega, Nat.sub_sub, Nat.add_comm 1]
        simp only [hd, List.cons_append, List.append_assoc] at ht
        have hd := List.append_cancel_left <| (List.cons.inj ht).right
        exact (hm quote (hd ▸ List.mem_append_left _ hs) hq).elim

end Lexeme
end PyVerify.Token
