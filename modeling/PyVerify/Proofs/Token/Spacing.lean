import PyVerify.Proofs.Token.Boundary

namespace PyVerify.Token

-- Blanks in front of a token, and lines of them that a backslash joins to the next one.
inductive IsMargin : List Char → Prop
  | nil                                                             : IsMargin []
  | blank {c cs} (hc : Lexeme.isBlank c) (h : IsMargin cs)          : IsMargin (c :: cs)
  | joined {br cs} (hb : IsBreak br) (h : IsMargin cs)              : IsMargin ('\\' :: (br ++ cs))

-- A line without tokens: blanks, and maybe a comment.
def IsEmptyLine (line : List Char) : Prop :=
  ∃ blanks comment br, line = blanks ++ comment ++ br ∧ (∀ c ∈ blanks, Lexeme.isBlank c) ∧
    (comment = [] ∨ ∃ cs, comment = '#' :: cs ∧ ∀ c ∈ cs, c ≠ '\r' ∧ c ≠ '\n') ∧ IsBreak br

-- Where a line of the text begins, and with it a logical line: the first token of one stands behind its margin.
def BeginsLine (before after : List Char) (tokens : List PyVerify.Token) : Prop :=
  (before = [] ∨ IsLines before) ∧ ∃ margin rest front first back, after = margin ++ rest ∧ IsMargin margin ∧
    tokens = front ++ first :: back ∧ (∀ t ∈ front.getLast?, t.kind.isLayout) ∧ ¬first.kind.isLayout ∧
    first.span.start = utf8Length (before ++ margin)

variable {c : Char} {cs ds w br margin line rest before after text : List Char} {p : Piece} {k : Kind} {l : Lexeme} {ls ms : List Lexeme}
variable {tokens init front back : List PyVerify.Token} {first : PyVerify.Token}

theorem IsMargin.of_append (h : IsMargin (w ++ cs)) (hw : ∀ c ∈ w, Lexeme.isBlank c) : IsMargin cs := by
  induction w
  case nil => exact h
  case cons c w hi =>
    obtain ⟨hc, hw⟩ := List.forall_mem_cons.mp hw
    generalize hd : c :: w ++ cs = ds at h
    cases h
    case nil => cases hd
    case blank h =>
      cases hd
      exact hi h hw
    case joined =>
      cases (List.cons.inj hd).left
      cases hc

namespace Lexeme

theorem scan_of_read (hr : read (w ++ ds) = (p, w.length)) (hw : w ≠ []) (hp : ¬isLast p) : scan (w ++ ds) = ⟨p, w⟩ :: scan ds := by
  obtain ⟨c, w, rfl⟩ := List.exists_cons_of_ne_nil hw
  rw [List.cons_append] at hr ⊢
  rw [scan_cons (by rwa [hr]), hr]
  simp

theorem scan_break (h : IsBreak br) : scan (br ++ ds) = ⟨.lineBreak, br⟩ :: scan ds := by
  obtain rfl | rfl := h <;> exact scan_of_read rfl nofun nofun

theorem scan_joined (h : IsBreak br) : scan ('\\' :: br ++ ds) = ⟨.blank, '\\' :: br⟩ :: scan ds := by
  obtain rfl | rfl := h <;> exact scan_of_read rfl nofun nofun

theorem read_blank (h : isBlank c) : read (c :: cs) = (.blank, 1 + (cs.takeWhile isBlank).length) := by
  rw [read_of_not_mem_leads <| not_mem_leads h <| by decide, if_pos h]

theorem scan_blanks (h : ∀ c ∈ w, isBlank c) (hw : w ≠ []) (hd : ∀ c ∈ ds.head?, isBlank c = false) :
    scan (w ++ ds) = ⟨.blank, w⟩ :: scan ds := by
  obtain ⟨c, w, rfl⟩ := List.exists_cons_of_ne_nil hw
  obtain ⟨hc, h⟩ := List.forall_mem_cons.mp h
  refine scan_of_read ?_ hw nofun
  rw [List.cons_append, read_blank hc, takeWhile_eq_of h hd, List.length_cons, Nat.add_comm]

theorem scan_comment (h : ∀ c ∈ cs, c ≠ '\r' ∧ c ≠ '\n') (hd : ∀ c ∈ ds.head?, c = '\r' ∨ c = '\n') :
    scan ('#' :: cs ++ ds) = ⟨.blank, '#' :: cs⟩ :: scan ds := by
  have ht : (cs ++ ds).takeWhile (fun c => c ≠ '\r' && c ≠ '\n') = cs := by
    refine takeWhile_eq_of (fun c hc => by simpa using h c hc) fun c hc => ?_
    obtain rfl | rfl := hd c hc <;> rfl
  refine scan_of_read ?_ nofun nofun
  simp only [List.cons_append, read, ht, List.length_cons, Nat.add_comm]

theorem ne_nil_of_mem_scan (h : l ∈ scan cs) : l.text ≠ [] := by
  fun_induction scan cs
  case case1 => cases h
  case case2 =>
    obtain rfl := List.mem_singleton.mp h
    exact List.cons_ne_nil _ _
  case case3 hi =>
    obtain rfl | h := List.mem_cons.mp h
    case inl => exact List.cons_ne_nil _ _
    case inr => exact hi h

-- The pieces of a margin are blanks.
theorem blank_of_margin (h : IsMargin margin) (hp : ls <+: scan (margin ++ rest)) (ht : ls.flatMap Lexeme.text = margin) :
    ∀ l ∈ ls, l.piece = .blank := by
  induction ls generalizing margin
  case nil => exact List.forall_mem_nil _
  case cons l ls hi =>
    cases h
    case nil =>
      have hl := ne_nil_of_mem_scan <| hp.subset <| .head _
      rw [List.flatMap_cons, List.append_eq_nil_iff] at ht
      exact (hl ht.left).elim
    case blank c cs hc h =>
      have hr : read (c :: (cs ++ rest)) = _ := read_blank hc
      rw [List.cons_append, scan_cons (by rw [hr]; nofun), hr, Nat.add_sub_cancel_left, take_length_takeWhile] at hp
      replace ⟨he, hp⟩ := List.cons_prefix_cons.mp hp
      subst he
      have hw : ∀ c ∈ (cs ++ rest).takeWhile isBlank, isBlank c := List.all_eq_true.mp List.all_takeWhile
      have ht : (cs ++ rest).takeWhile isBlank ++ ls.flatMap Lexeme.text = cs := (List.cons.inj ht).right
      generalize (cs ++ rest).takeWhile isBlank = w at hp ht hw
      subst ht
      rw [List.append_assoc, List.drop_left] at hp
      exact List.forall_mem_cons.mpr ⟨rfl, hi (h.of_append hw) hp rfl⟩
    case joined br cs hb h =>
      rw [List.cons_append, List.append_assoc, ← List.cons_append, scan_joined hb] at hp
      replace ⟨he, hp⟩ := List.cons_prefix_cons.mp hp
      subst he
      have ht : '\\' :: br ++ ls.flatMap Lexeme.text = '\\' :: br ++ cs := ht
      exact List.forall_mem_cons.mpr ⟨rfl, hi h hp <| List.append_cancel_left ht⟩

theorem scan_emptyLine (h : IsEmptyLine line) :
    ∃ ls br, (∀ l ∈ ls, l.piece = .blank) ∧ ∀ es, scan (line ++ es) = ls ++ ⟨.lineBreak, br⟩ :: scan es := by
  obtain ⟨blanks, comment, br, rfl, hw, hc, hb⟩ := h
  have hd (es : List Char) : ∀ c ∈ (br ++ es).head?, c = '\r' ∨ c = '\n' := by
    obtain rfl | rfl := hb <;> simp
  obtain ⟨ls, hl, hs⟩ : ∃ ls, (∀ l ∈ ls, l.piece = .blank) ∧
      ∀ es, scan (comment ++ (br ++ es)) = ls ++ ⟨.lineBreak, br⟩ :: scan es := by
    obtain rfl | ⟨cs, rfl, hc⟩ := hc
    case inl => exact ⟨[], List.forall_mem_nil _, fun es => scan_break hb⟩
    case inr => exact ⟨[⟨.blank, '#' :: cs⟩], by simp, fun es => by rw [scan_comment hc (hd es), scan_break hb]; rfl⟩
  by_cases hn : blanks = []
  case pos =>
    subst hn
    exact ⟨ls, br, hl, fun es => by simpa using hs es⟩
  case neg =>
    refine ⟨⟨.blank, blanks⟩ :: ls, br, List.forall_mem_cons.mpr ⟨rfl, hl⟩, fun es => ?_⟩
    rw [List.append_assoc, List.append_assoc, scan_blanks hw hn, hs]
    · rfl
    · intro c hm
      obtain rfl | ⟨cs, rfl, -⟩ := hc
      case inl => obtain rfl | rfl := hd es c hm <;> rfl
      case inr =>
        cases hm
        rfl

end Lexeme

namespace Layout

variable {s t u : State}

-- A piece adds one token at most, and layout in front of it.
theorem Step.eq_nil {cs} (h : Step s p cs (front ++ first :: back) t) (hf : ¬first.kind.isLayout) : back = [] := by
  generalize he : front ++ first :: back = tokens at h
  cases h
  case blank | joined | skipped => simp at he
  case ended | inside =>
    obtain ⟨rfl, he⟩ | he := List.append_eq_singleton_iff.mp he
    case inl => exact (List.cons.inj he).right
    case inr => simp at he
  case opens opened k _ _ ho =>
    obtain rfl | ⟨back, u, rfl⟩ := back.eq_nil_or_concat'
    case inl => rfl
    case inr =>
      rw [← List.cons_append, ← List.append_assoc] at he
      obtain ⟨rfl, -⟩ := List.append_inj' he rfl
      exact (hf <| ho.isLayout <| by simp).elim

theorem Step.opened {cs} (h : Step s p cs (front ++ [first]) t) (hf : ¬first.kind.isLayout) :
    first.span.start = s.offset ∧ (s.lineOpen = true → front = []) := by
  generalize he : front ++ [first] = tokens at h
  cases h
  case blank | joined | skipped => simp at he
  case ended =>
    obtain ⟨-, he⟩ := List.append_inj' (show _ = [] ++ _ from he) rfl
    cases he
    exact (hf rfl).elim
  case inside =>
    obtain ⟨rfl, he⟩ := List.append_inj' (show _ = [] ++ _ from he) rfl
    cases he
    exact ⟨rfl, fun _ => rfl⟩
  case opens ho _ =>
    obtain rfl := (List.cons.inj (List.append_inj' he rfl).right).left
    exact ⟨rfl, fun h => by rw [ho] at h; cases h⟩

namespace Steps

theorem run (h : Steps s ls tokens t) : Layout.run s ls = .ok (tokens ++ finish t) := by
  have hr : Layout.run s (ls ++ []) = .ok (tokens ++ finish t) := h.run_append rfl
  rwa [List.append_nil] at hr

theorem append_inv (h : Steps s (ls ++ ms) tokens t) : ∃ u first more, tokens = first ++ more ∧ Steps s ls first u ∧ Steps u ms more t := by
  induction ls generalizing s tokens
  case nil => exact ⟨s, [], tokens, rfl, .nil, h⟩
  case cons l ls hi =>
    cases h
    case cons hs h =>
      obtain ⟨u, first, more, rfl, hf, hm⟩ := hi h
      exact ⟨u, _, more, (List.append_assoc ..).symm, .cons hs hf, hm⟩

theorem append (h : Steps s ls tokens u) (ht : Steps u ms init t) : Steps s (ls ++ ms) (tokens ++ init) t := by
  induction h
  case nil => exact ht
  case cons hs _ hi => exact (List.append_assoc ..) ▸ .cons hs (hi ht)

theorem blank (h : Steps s ls tokens t) (hb : ∀ l ∈ ls, l.piece = .blank) :
    tokens = [] ∧ t.depth = s.depth ∧ t.lineOpen = s.lineOpen := by
  induction h
  case nil => exact ⟨rfl, rfl, rfl⟩
  case cons hs _ hi =>
    obtain ⟨hl, hb⟩ := List.forall_mem_cons.mp hb
    obtain ⟨rfl, hd, ho⟩ := hi hb
    have hs := step_inv hs
    rw [hl] at hs
    cases hs
    exact ⟨rfl, hd, ho⟩

theorem of_blank (h : ∀ l ∈ ls, l.piece = .blank) (s : State) : ∃ n m, Steps s ls [] ⟨n, m, s.depth, s.lineOpen, s.widths⟩ := by
  induction ls generalizing s
  case nil => exact ⟨_, _, .nil⟩
  case cons l ls hi =>
    obtain ⟨hl, h⟩ := List.forall_mem_cons.mp h
    obtain ⟨n, m, ht⟩ := hi h ⟨s.offset + utf8Length l.text, lastLine (s.margin ++ l.text), s.depth, s.lineOpen, s.widths⟩
    have hs : step s l = .ok ([], ⟨s.offset + utf8Length l.text, lastLine (s.margin ++ l.text), s.depth, s.lineOpen, s.widths⟩) := by
      rw [step, hl]
    exact ⟨n, m, List.append_nil [] ▸ .cons hs ht⟩

-- Behind the first token of a logical line the line is open, until it ends.
theorem last_not_isLayout (h : Steps s ls tokens t) (hk : ∀ l ∈ ls, ∀ k, l.piece = .token k → ¬k.isLayout) (ho : t.lineOpen = true) :
    s.lineOpen = true ∧ tokens = [] ∨ ∃ u ∈ tokens.getLast?, ¬u.kind.isLayout := by
  induction h
  case nil => exact .inl ⟨ho, rfl⟩
  case cons s l first u ls more t hs _ hi =>
    obtain ⟨hl, hk⟩ := List.forall_mem_cons.mp hk
    obtain ⟨hu, rfl⟩ | ⟨v, hv, hn⟩ := hi hk ho
    case inr => exact .inr ⟨v, by rw [List.getLast?_append, hv]; rfl, hn⟩
    case inl =>
      rw [List.append_nil]
      have hs := step_inv hs
      generalize l.piece = p at hs hl
      cases hs
      case blank | joined   => exact .inl ⟨hu, rfl⟩
      case skipped | ended  => cases hu
      case inside           => exact .inr ⟨_, rfl, hl _ rfl⟩
      case opens            => exact .inr ⟨_, List.getLast?_concat, hl _ rfl⟩

theorem exists_token (h : Steps s ls (front ++ first :: back) t) (hf : ¬first.kind.isLayout) : ∃ ls' l ms init u opened v,
    ls = ls' ++ l :: ms ∧ Steps s ls' init u ∧ step u l = .ok (opened ++ [first], v) ∧ Steps v ms back t ∧ front = init ++ opened := by
  generalize he : front ++ first :: back = tokens at h
  induction h generalizing front
  case nil => simp at he
  case cons s l tokens u ls more t hs ht hi =>
    have hs' := step_inv hs
    obtain ⟨a, rfl, hm⟩ | ⟨a, rfl, hm⟩ := List.append_eq_append_iff.mp he
    case inr =>
      obtain ⟨ls', l', ms, init, w, opened, v, rfl, hw, hv, ht, rfl⟩ := hi hm.symm
      exact ⟨l :: ls', l', ms, _, w, opened, v, rfl, .cons hs hw, hv, ht, (List.append_assoc ..).symm⟩
    case inl =>
      cases a
      case nil =>
        obtain ⟨ls', l', ms, init, w, opened, v, rfl, hw, hv, ht, hn⟩ := hi (show [] ++ _ = _ from hm)
        refine ⟨l :: ls', l', ms, _, w, opened, v, rfl, .cons hs hw, hv, ht, ?_⟩
        rw [List.append_assoc, ← hn, List.append_nil, List.append_nil]
      case cons v a =>
        obtain ⟨rfl, rfl⟩ := List.cons.inj hm
        obtain rfl := hs'.eq_nil hf
        exact ⟨[], l, ls, [], s, front, u, rfl, .nil, hs, ht, rfl⟩

theorem behind (h : Steps s ls tokens t) (hp : ls ++ ms = Lexeme.scan cs) (hb : s.Behind text cs) :
    ∃ rest, t.Behind (text ++ ls.flatMap Lexeme.text) rest := by
  induction h generalizing cs text
  case nil => exact ⟨cs, by simpa using hb⟩
  case cons s l _ u ls _ _ hs h hi =>
    cases cs
    case nil => simp [Lexeme.scan] at hp
    case cons c cs =>
      have hn := (Steps.cons hs h).not_isLast l (.head _)
      have hl : ¬Lexeme.isLast (Lexeme.read (c :: cs)).fst := by
        intro hl
        rw [Lexeme.scan] at hp
        simp only [if_pos hl] at hp
        cases (List.cons.inj hp).left
        exact hn hl
      rw [Lexeme.scan_cons hl] at hp
      rw [List.cons_append, List.cons.injEq] at hp
      obtain ⟨he, hp⟩ := hp
      subst he
      have hr := Lexeme.reads_of_read rfl hl
      have hb := State.Behind.step (by rwa [List.cons_append, List.take_append_drop]) hr (step_inv hs)
      obtain ⟨rest, ht⟩ := hi hp hb
      exact ⟨rest, by rwa [List.flatMap_cons, ← List.append_assoc]⟩

end Steps

-- A line without tokens changes nothing where no line has begun.
theorem exists_steps_emptyLine (h : IsEmptyLine line) (hd : s.depth = 0) (ho : s.lineOpen = false) :
    ∃ ls n, (∀ es, Lexeme.scan (line ++ es) = ls ++ Lexeme.scan es) ∧ Steps s ls [] ⟨n, [], 0, false, s.widths⟩ := by
  obtain ⟨ls, br, hl, hs⟩ := Lexeme.scan_emptyLine h
  obtain ⟨n, m, ht⟩ := Steps.of_blank hl s
  rw [hd, ho] at ht
  have hb : Steps ⟨n, m, 0, false, s.widths⟩ [⟨.lineBreak, br⟩] ([] ++ []) ⟨n + utf8Length br, [], 0, false, s.widths⟩ :=
    .cons rfl .nil
  exact ⟨_, _, fun es => by simp [hs], ht.append hb⟩

theorem run_break (s : State) (br : List Char) :
    ∃ more, run s [⟨.lineBreak, br⟩] = .ok more ∧ more.map Token.kind = (finish s).map Token.kind := by
  by_cases hd : 0 < s.depth
  case pos =>
    refine ⟨_, run_cons (by rw [step, if_pos hd]) rfl, ?_⟩
    simp only [finish, List.nil_append, List.map_append, List.map_map]
    split <;> rfl
  case neg =>
    refine ⟨_, run_cons (by rw [step, if_neg hd]) rfl, ?_⟩
    simp only [finish, List.map_append, List.map_map]
    split <;> rfl

end Layout

theorem IsMargin.not_isQuote (h : IsMargin margin) : ∀ c ∈ margin, ¬Quotation.isQuote c := by
  induction h
  case nil => nofun
  case blank hc _ hi =>
    refine List.forall_mem_cons.mpr ⟨?_, hi⟩
    intro hq
    simp only [Lexeme.isBlank, Quotation.isQuote, Bool.or_eq_true, beq_iff_eq] at hc hq
    obtain (rfl | rfl) | rfl := hc <;> simp at hq
  case joined hb _ hi =>
    refine List.forall_mem_cons.mpr ⟨by decide, List.forall_mem_append.mpr ⟨?_, hi⟩⟩
    obtain rfl | rfl := hb <;> simp [Quotation.isQuote]

-- In front of a logical line the text is cut, whatever stands behind the cut, and no line is open.
theorem BeginsLine.exists_steps (h : tokenize (before ++ after) = .ok tokens) (hb : BeginsLine before after tokens) :
    ∃ done front n widths more, (∀ es, Lexeme.scan (before ++ es) = done ++ Lexeme.scan es) ∧
      Layout.Steps .initial done front ⟨n, [], 0, false, widths⟩ ∧
      Layout.run ⟨n, [], 0, false, widths⟩ (Lexeme.scan after) = .ok more ∧ tokens = front ++ more := by
  obtain ⟨hp, margin, rest, front, first, back, rfl, hm, rfl, hl, hf, hz⟩ := hb
  obtain ⟨all, t, ht', he⟩ := Layout.exists_steps h
  obtain ⟨back, rfl, rfl⟩ : ∃ more, all = front ++ first :: more ∧ back = more ++ Layout.finish t := by
    have hn {u : PyVerify.Token} (hu : u ∈ Layout.finish t) : u ≠ first := by
      rintro rfl
      exact hf (Layout.isLayout_of_mem_finish hu)
    obtain ⟨a, rfl, ha⟩ | ⟨a, -, ha⟩ := List.append_eq_append_iff.mp he
    case inr => exact (hn (ha ▸ List.mem_append_right _ (.head _)) rfl).elim
    case inl =>
      cases a
      case nil => exact (hn (show first ∈ [] ++ Layout.finish t from ha ▸ .head _) rfl).elim
      case cons =>
        obtain ⟨rfl, rfl⟩ := List.cons.inj ha
        exact ⟨_, rfl, rfl⟩
  clear he
  obtain ⟨ls, l, ms, init, u, opened, v, hs, hu, hv, ht, rfl⟩ := ht'.exists_token hf
  obtain ⟨hz', ho⟩ := (Layout.step_inv hv).opened hf
  have ho : u.lineOpen = false := by
    by_contra hn
    rw [Bool.not_eq_false] at hn
    obtain rfl := ho hn
    obtain ⟨hi, -⟩ | ⟨w, hw, hk⟩ := hu.last_not_isLayout
      (fun l hl _ => Lexeme.not_isLayout_of_mem_scan <| hs ▸ List.mem_append_left _ hl) hn
    case inl => cases hi
    case inr => exact hk (hl w <| by rwa [List.append_nil])
  have hc : ls.flatMap Lexeme.text = before ++ margin := by
    obtain ⟨_, hb⟩ := hu.behind hs.symm .initial
    have ha := congrArg (·.flatMap Lexeme.text) hs
    have hn : utf8Length (ls.flatMap Lexeme.text) = utf8Length (before ++ margin) := by rw [← hz, hz', hb.offset, List.nil_append]
    rw [Lexeme.flatMap_scan ht'.not_isLast, List.flatMap_append, ← List.append_assoc] at ha
    have ht : takeBytes? _ (before ++ margin ++ rest) = some (before ++ margin) := takeBytes?_append
    rw [← hn, ha, takeBytes?_append] at ht
    exact Option.some.inj ht
  obtain ⟨done, blanks, rfl, hd, he⟩ := Lexeme.scan_lines hp ⟨_, hs.symm⟩ hu.not_isLast hc hm.not_isQuote
  obtain ⟨⟨n, m, d, o, widths⟩, front, more, rfl, hf₀, hu⟩ := hu.append_inv
  rw [he (margin ++ rest), List.append_assoc] at hs
  replace hs := List.append_cancel_left hs
  replace hc : blanks.flatMap Lexeme.text = margin := by
    rw [List.flatMap_append, hd] at hc
    exact List.append_cancel_left hc
  obtain ⟨rfl, hd₀, ho₀⟩ := hu.blank <| Lexeme.blank_of_margin hm (hs ▸ List.prefix_append ..) hc
  obtain ⟨_, hb⟩ := hf₀.behind (he rest).symm .initial
  obtain rfl : o = false := ho₀.symm.trans ho
  obtain rfl : d = 0 := hb.depth rfl
  obtain rfl : m = [] := by
    refine (hb.margin rfl).trans ?_
    rw [hd, List.nil_append]
    obtain rfl | ⟨w, rfl⟩ := hp
    case inl => rfl
    case inr => exact lastLine_append_newline
  have hr : Layout.run ⟨n, [], 0, false, widths⟩ (Lexeme.scan (margin ++ rest)) =
      .ok ([] ++ (opened ++ [first] ++ (back ++ Layout.finish t))) := by
    rw [hs]
    exact hu.run_append <| Layout.run_cons hv ht.run
  exact ⟨done, front, n, widths, _, he, hf₀, hr, by simp⟩

-- A line without tokens in front of a logical line adds no tokens.
theorem tokenize_insert (h : tokenize (before ++ after) = .ok tokens) (hb : BeginsLine before after tokens) (hl : IsEmptyLine line) :
    ∃ more, tokenize (before ++ line ++ after) = .ok more ∧ more.map Token.kind = tokens.map Token.kind := by
  obtain ⟨done, front, n, widths, more, hs, ht, hr, rfl⟩ := hb.exists_steps h
  obtain ⟨ls, m, he, hu⟩ := Layout.exists_steps_emptyLine (s := ⟨n, [], 0, false, widths⟩) hl rfl rfl
  obtain ⟨more', hr, hk⟩ := Layout.run_offset hr m
  refine ⟨front ++ more', ?_, by rw [List.map_append, List.map_append, hk]⟩
  rw [tokenize, List.append_assoc, hs, he]
  exact ht.run_append <| hu.run_append hr

-- Neither does a line break at the end of the text.
theorem tokenize_append_break (h : tokenize text = .ok tokens) (hb : IsBreak br) :
    ∃ more, tokenize (text ++ br) = .ok more ∧ more.map Token.kind = tokens.map Token.kind := by
  obtain ⟨init, t, ht, rfl⟩ := Layout.exists_steps h
  have hs : Lexeme.scan (text ++ br) = Lexeme.scan text ++ [⟨.lineBreak, br⟩] := by
    rw [Lexeme.scan_append (.inr <| .inr ?_) ht.not_isLast]
    · have hs : Lexeme.scan (br ++ []) = _ := Lexeme.scan_break hb
      simpa [Lexeme.scan] using hs
    · obtain rfl | rfl := hb <;> simp
  obtain ⟨more, hm, hk⟩ := Layout.run_break t br
  exact ⟨init ++ more, by rw [tokenize, hs, ht.run_append hm], by rw [List.map_append, List.map_append, hk]⟩

end PyVerify.Token
