import PyVerify.Proofs.Token.Layout

namespace PyVerify

variable {text before after : List Char} {y z : Span}

-- A byte that a character begins at, or the end of the text.
def IsBoundary (text : List Char) (n : Nat) : Prop :=
  ∃ before after, text = before ++ after ∧ n = utf8Length before

-- A stretch of the text that no character sticks out of.
structure Span.Whole (text : List Char) (z : Span) : Prop where
  start : IsBoundary text z.start
  stop  : IsBoundary text z.stop

theorem IsBoundary.of_append : IsBoundary (before ++ after) (utf8Length before) :=
  ⟨before, after, rfl, rfl⟩

namespace Span.Whole

theorem origin : (Span.point 0).Whole text :=
  ⟨⟨[], text, rfl, rfl⟩, ⟨[], text, rfl, rfl⟩⟩

theorem join (hy : y.Whole text) (hz : z.Whole text) : (y.join z).Whole text where
  start := by
    rw [start_join]
    obtain h | h := min_choice y.start z.start <;> rw [h]
    case inl => exact hy.start
    case inr => exact hz.start
  stop := by
    rw [stop_join]
    obtain h | h := max_choice y.stop z.stop <;> rw [h]
    case inl => exact hy.stop
    case inr => exact hz.stop

theorem between {inside : List Char} :
    (Span.between (utf8Length before) (utf8Length (before ++ inside))).Whole (before ++ (inside ++ after)) where
  start := .of_append
  stop  := by
    rw [stop_between <| utf8Length_le_of_prefix (List.prefix_append ..), ← List.append_assoc]
    exact .of_append

end Span.Whole

theorem error_of_bind {ε α β : Type} {x : Except ε α} {f : α → Except ε β} {e : ε} (h : (x >>= f) = .error e) :
    x = .error e ∨ ∃ a, x = .ok a ∧ f a = .error e := by
  cases x
  case error =>
    cases h
    exact .inl rfl
  case ok a => exact .inr ⟨a, rfl, h⟩

namespace Token.Layout

-- Piece by piece, a text is read up to a place; nothing fails before.
inductive Comes : State → List Char → State → List Char → Prop
  | here : Comes s cs s cs
  | next (hr : Lexeme.read (c :: cs) = (p, n)) (hs : step s ⟨p, c :: cs.take (n - 1)⟩ = .ok (tokens, t))
    (h : Comes t (cs.drop (n - 1)) u rest) : Comes s (c :: cs) u rest

-- How a piece fails.
inductive Fails (s : State) : Piece → List Char → ReadFailure → Prop
  | unindent (ho : s.lineOpen = false) :
    Fails s p cs (.error ⟨.unmatchedUnindent, .between s.marginSpan.start (s.offset + utf8Length cs)⟩)
  | fault : Fails s (.fault cause) cs (.error ⟨cause, .between s.offset (s.offset + utf8Length cs)⟩)
  | broken : Fails s .broken cs .aborted

variable {s t : State} {l : Lexeme} {p : Piece} {cs done rest : List Char} {r : ReadFailure} {e : SyntaxError}

theorem step_not_last (h : step s l = .ok (tokens, t)) : ¬Lexeme.isLast l.piece := by
  have hs := step_inv h
  generalize l.piece = p at hs
  cases hs <;> nofun

theorem fails_of_step (h : step s l = .error r) : Fails s l.piece l.text r := by
  obtain ⟨piece, cs⟩ := l
  simp only [step] at h
  split at h
  case h_1 => cases h
  case h_2 => split at h <;> cases h
  case h_5 =>
    cases h
    exact .broken
  -- A token and a fault open a logical line.
  case h_3 | h_4 =>
    obtain hm | ⟨_, _, h⟩ := error_of_bind h
    case inr => cases h <;> exact .fault
    case inl =>
      split at hm
      case isTrue => cases hm
      case isFalse ho =>
        split at hm <;> cases hm
        exact .unindent (by simpa using ho)

-- A text has no tokens if a piece of it fails, and nothing before that.
theorem run_scan_eq_error_iff : run s (Lexeme.scan cs) = .error r ↔ ∃ t c ds p n, Comes s cs t (c :: ds) ∧
    Lexeme.read (c :: ds) = (p, n) ∧ step t ⟨p, c :: ds.take (n - 1)⟩ = .error r := by
  constructor
  case mp =>
    intro h
    fun_induction Lexeme.scan cs generalizing s
    case case1 => cases h
    case case2 c cs p n hr _ _ =>
      obtain hs | ⟨_, _, h⟩ := error_of_bind h
      case inl => exact ⟨s, c, cs, p, n, .here, hr, hs⟩
      case inr => cases h
    case case3 c cs p n hr _ _ hi =>
      obtain hs | ⟨⟨_, t⟩, hs, h⟩ := error_of_bind h
      case inl => exact ⟨s, c, cs, p, n, .here, hr, hs⟩
      case inr =>
        obtain h | ⟨_, _, h⟩ := error_of_bind h
        case inr => cases h
        case inl =>
          obtain ⟨u, d, ds, q, m, hc, hq, hf⟩ := hi h
          exact ⟨u, d, ds, q, m, .next hr hs hc, hq, hf⟩
  case mpr =>
    rintro ⟨t, c, ds, p, n, hc, hr, hf⟩
    generalize hd : c :: ds = rest at hc
    induction hc
    case here =>
      subst hd
      rw [Lexeme.scan, hr]
      simp only
      split <;> rw [run, hf] <;> rfl
    case next hr' hs hc hi =>
      rw [Lexeme.scan, hr']
      simp only
      rw [if_neg (step_not_last hs), run, hs]
      change (run _ (Lexeme.scan _) >>= _) = _
      rw [hi hf hd]
      rfl

theorem Comes.behind (h : Comes s cs t rest) (hb : s.Behind done cs) : ∃ done', done ++ cs = done' ++ rest ∧ t.Behind done' rest := by
  induction h generalizing done
  case here => exact ⟨done, rfl, hb⟩
  case next c cs p n _ _ _ _ _ hr hs _ hi =>
    have hc : c :: cs = (c :: cs.take (n - 1)) ++ cs.drop (n - 1) := by simp
    rw [hc] at hb ⊢
    obtain ⟨done', hd, hb⟩ := hi <| hb.step (Lexeme.reads_of_read hr (step_not_last hs)) (step_inv hs)
    exact ⟨done', by rw [← hd, List.append_assoc], hb⟩

-- The tokens that a piece adds are layout and what it is itself.
theorem Step.mem {u : PyVerify.Token} (h : Step s p cs tokens t) (hu : u ∈ tokens) :
    u.kind.isLayout ∨ p = .token u.kind ∧ u.span = .between s.offset (s.offset + utf8Length cs) := by
  cases h
  case ended  => exact .inl (List.mem_singleton.mp hu ▸ rfl)
  case inside => exact .inr (List.mem_singleton.mp hu ▸ ⟨rfl, rfl⟩)
  case opens ho =>
    obtain hu | hu := List.mem_append.mp hu
    case inl => exact .inl (ho.isLayout hu)
    case inr => exact .inr (List.mem_singleton.mp hu ▸ ⟨rfl, rfl⟩)
  all_goals cases hu

-- A token that is no layout is read at its place.
theorem exists_read_of_mem {u : PyVerify.Token} (h : run s (Lexeme.scan cs) = .ok tokens) (hu : u ∈ tokens) :
    u.kind.isLayout ∨ ∃ t c ds n, Comes s cs t (c :: ds) ∧ Lexeme.read (c :: ds) = (.token u.kind, n) ∧
      u.span = .between t.offset (t.offset + utf8Length (c :: ds.take (n - 1))) := by
  fun_induction Lexeme.scan cs generalizing s tokens
  case case1 =>
    cases h
    exact .inl (isLayout_of_mem_finish hu)
  case case2 hl =>
    obtain ⟨_, hs, -⟩ := exists_ok_of_bind h
    exact (step_not_last hs hl).elim
  case case3 c cs p n hr _ hl hi =>
    obtain ⟨⟨first, t⟩, hs, h⟩ := exists_ok_of_bind h
    obtain ⟨more, hm, h⟩ := exists_ok_of_bind h
    cases h
    obtain hu | hu := List.mem_append.mp hu
    case inl =>
      obtain hk | ⟨hp, hz⟩ := (step_inv hs).mem hu
      case inl => exact .inl hk
      case inr => exact .inr ⟨s, c, cs, n, .here, hr.trans <| congrArg (·, n) hp, hz⟩
    case inr =>
      obtain hk | ⟨t, d, ds, m, hc, hd, hz⟩ := hi hm hu
      case inl => exact .inl hk
      case inr => exact .inr ⟨t, d, ds, m, .next hr hs hc, hd, hz⟩

-- A piece that fails is found at a place of the text, and so is the margin before it.
theorem Fails.whole (h : Fails s p cs (.error e)) (hb : s.Behind done (cs ++ rest)) : e.span.Whole (done ++ (cs ++ rest)) := by
  cases h
  case fault =>
    rw [hb.offset_append, hb.offset]
    exact .between
  case unindent ho =>
    obtain ⟨before, hm⟩ := lastLine_suffix done
    rw [← hb.margin ho] at hm
    have hs : s.marginSpan.start = utf8Length before := by
      rw [State.marginSpan, Span.between, hb.offset, ← hm, utf8Length_append, Nat.add_sub_cancel]
    rw [hs, hb.offset_append, ← hm, List.append_assoc, List.append_assoc, ← List.append_assoc s.margin]
    exact .between

end Token.Layout

-- A token that is no layout is read off a stretch of the text.
theorem Token.exists_place_of_mem {tokens : List Token} {t : Token} (h : tokenize text = .ok tokens) (ht : t ∈ tokens) : t.kind.isLayout ∨
    ∃ before c cs n, text = before ++ (c :: cs.take (n - 1) ++ cs.drop (n - 1)) ∧ Lexeme.read (c :: cs) = (.token t.kind, n) ∧
      t.span = .between (utf8Length before) (utf8Length (before ++ c :: cs.take (n - 1))) := by
  refine (Layout.exists_read_of_mem h ht).imp_right ?_
  rintro ⟨s, c, cs, n, hc, hr, hs⟩
  obtain ⟨before, he, hb⟩ := hc.behind .initial
  rw [hb.offset_append, hb.offset] at hs
  exact ⟨before, c, cs, n, by simpa using he, hr, hs⟩

theorem Token.whole_of_tokenize_eq_error {e : SyntaxError} (h : tokenize text = .error (.error e)) : e.span.Whole text := by
  obtain ⟨t, c, ds, p, n, hc, -, hf⟩ := Layout.run_scan_eq_error_iff.mp h
  obtain ⟨done, hd, hb⟩ := hc.behind .initial
  have hs : c :: ds = (c :: ds.take (n - 1)) ++ ds.drop (n - 1) := by simp
  rw [hs] at hd hb
  rw [List.nil_append] at hd
  rw [hd]
  exact (Layout.fails_of_step hf).whole hb

end PyVerify
