import PyVerify.Proofs.Token.Lines
import PyVerify.Proofs.Token.Local

namespace PyVerify.Token

-- Nothing stands behind the last line break, and that is not joined by a backslash.
def EndsLine (text : List Char) : Prop :=
  text = [] ∨ ∃ l ∈ (Lexeme.scan text).getLast?, l.piece = .lineBreak

-- From one state of the layout to another, piece by piece.
inductive Layout.Steps : Layout.State → List Lexeme → List PyVerify.Token → Layout.State → Prop
  | nil                                                               : Steps s [] [] s
  | cons (h : step s l = .ok (tokens, u)) (hs : Steps u ls more t)    : Steps s (l :: ls) (tokens ++ more) t

variable {text cs ds first second : List Char} {ls ms : List Lexeme} {l : Lexeme} {tokens more us : List PyVerify.Token}
variable {n : Nat} {widths : List Nat}

namespace Lexeme

theorem reads_of_mem_scan (h : l ∈ scan cs) (hp : ¬isLast l.piece) : ∃ rest, Reads l.piece l.text rest := by
  fun_induction scan cs
  case case1 => cases h
  case case2 hl =>
    obtain rfl := List.mem_singleton.mp h
    exact (hp hl).elim
  case case3 hr lexeme hl hi =>
    obtain rfl | h := List.mem_cons.mp h
    case inr => exact hi h
    case inl => exact ⟨_, reads_of_read hr hl⟩

theorem isBreak_of_mem_scan (h : l ∈ scan cs) (hp : l.piece = .lineBreak) : IsBreak l.text := by
  obtain ⟨rest, hr⟩ := reads_of_mem_scan h (by rw [hp]; nofun)
  rw [hp] at hr
  cases hr
  assumption

theorem not_isLayout_of_mem_scan {k : Kind} (h : l ∈ scan cs) (hp : l.piece = .token k) : ¬k.isLayout := by
  obtain ⟨rest, hr⟩ := reads_of_mem_scan h (by rw [hp]; nofun)
  rw [hp] at hr
  exact hr.spells.not_isLayout

theorem flatMap_scan (h : ∀ l ∈ scan cs, ¬isLast l.piece) : (scan cs).flatMap Lexeme.text = cs := by
  fun_induction scan cs
  case case1 => rfl
  case case2 hl => exact (h _ (.head _) hl).elim
  case case3 hi =>
    rw [List.flatMap_cons, hi (List.forall_mem_cons.mp h).right, List.cons_append, List.take_append_drop]

end Lexeme

theorem EndsLine.isLines (h : EndsLine text) (hl : ∀ l ∈ Lexeme.scan text, ¬Lexeme.isLast l.piece) : text = [] ∨ IsLines text := by
  refine h.imp_right ?_
  rintro ⟨l, hs, hp⟩
  have hb := Lexeme.isBreak_of_mem_scan (List.mem_of_getLast? hs) hp
  obtain ⟨init, hs⟩ := List.getLast?_eq_some_iff.mp hs
  have ht := Lexeme.flatMap_scan hl
  rw [hs, List.flatMap_append, List.flatMap_singleton] at ht
  rw [← ht]
  obtain hb | hb := hb <;> rw [hb]
  case inl => exact List.suffix_append ..
  case inr =>
    rw [List.append_cons]
    exact List.suffix_append ..

namespace Layout

variable {s t u : State}

theorem run_cons (hs : step s l = .ok (tokens, u)) (h : run u ls = .ok more) : run s (l :: ls) = .ok (tokens ++ more) := by
  rw [run, hs]
  change (run _ _ >>= _) = _
  rw [h]
  rfl

theorem exists_steps (h : run s ls = .ok tokens) : ∃ init t, Steps s ls init t ∧ tokens = init ++ finish t := by
  induction ls generalizing s tokens
  case nil =>
    cases h
    exact ⟨[], s, .nil, rfl⟩
  case cons l ls hi =>
    obtain ⟨⟨first, u⟩, hs, h⟩ := exists_ok_of_bind h
    obtain ⟨more, hr, h⟩ := exists_ok_of_bind h
    cases h
    obtain ⟨init, t, ht, rfl⟩ := hi hr
    exact ⟨first ++ init, t, .cons hs ht, (List.append_assoc ..).symm⟩

namespace Steps

theorem run_append (h : Steps s ls tokens t) (hr : run t ms = .ok more) : run s (ls ++ ms) = .ok (tokens ++ more) := by
  induction h
  case nil => exact hr
  case cons hs _ hi =>
    rw [List.cons_append, List.append_assoc]
    exact run_cons hs (hi hr)

theorem not_isLast (h : Steps s ls tokens t) : ∀ l ∈ ls, ¬Lexeme.isLast l.piece := by
  induction h
  case nil => exact List.forall_mem_nil _
  case cons s l _ u _ _ _ hs _ hi =>
    refine List.forall_mem_cons.mpr ⟨?_, hi⟩
    have hs := step_inv hs
    generalize l.piece = p at hs
    cases hs <;> nofun

theorem depth (h : Steps s ls tokens t) : t.depth = tokens.foldl (fun depth t => depthAfter depth t.kind) s.depth := by
  induction h
  case nil => rfl
  case cons hs _ hi => rw [hi, (step_inv hs).depth, List.foldl_append]

theorem nested (h : Steps s ls tokens t) (hn : Nested s.widths) : Nested t.widths := by
  induction h
  case nil => exact hn
  case cons hs _ hi => exact hi <| (step_inv hs).nested hn

theorem last (h : Steps s (ls ++ [l]) tokens t) : ∃ u last, step u l = .ok (last, t) := by
  generalize hm : ls ++ [l] = ms at h
  induction h generalizing ls
  case nil => simp at hm
  case cons hs ht hi =>
    cases ls
    case nil =>
      cases hm
      cases ht
      exact ⟨_, _, hs⟩
    case cons => exact hi (List.cons.inj hm).right

end Steps

-- Behind a line break outside brackets no line has begun.
theorem Steps.outside (h : Steps .initial ls tokens t) (hl : ls = [] ∨ ∃ l ∈ ls.getLast?, l.piece = .lineBreak) (hd : t.depth = 0) :
    t = ⟨t.offset, [], 0, false, t.widths⟩ := by
  obtain rfl | ⟨l, hl, hp⟩ := hl
  case inl =>
    cases h
    rfl
  case inr =>
    obtain ⟨init, rfl⟩ := List.getLast?_eq_some_iff.mp hl
    obtain ⟨u, last, hs⟩ := h.last
    have hs := step_inv hs
    rw [hp] at hs
    cases hs
    case joined hn => exact (hn.ne' hd).elim
    all_goals rfl

-- The kinds of the tokens do not depend on where the text begins.

-- What a margin of some width makes of the open blocks.
def blocks? (column : Nat) (widths : List Nat) : Option (List Kind × List Nat) :=
  if widths.headD 0 < column then some ([.indent], column :: widths)
  else
    let closed := widths.takeWhile (column < ·)
    if (widths.drop closed.length).headD 0 = column then some (closed.map fun _ => .dedent, widths.drop closed.length) else none

theorem margin?_eq : margin? s = (blocks? (marginWidth s.margin) s.widths).map fun (ks, widths) => (ks.map (⟨·, s.marginSpan⟩), widths) := by
  simp only [margin?, blocks?]
  by_cases hw : s.width < marginWidth s.margin
  case pos =>
    rw [if_pos hw, if_pos (show s.widths.headD 0 < _ from hw)]
    rfl
  case neg =>
    rw [if_neg hw, if_neg (show ¬s.widths.headD 0 < _ from hw)]
    split
    case isTrue   => simp
    case isFalse  => rfl

theorem step_offset (h : step s l = .ok (tokens, u)) (n : Nat) :
    ∃ more m, step { s with offset := n } l = .ok (more, { u with offset := m }) ∧ more.map Token.kind = tokens.map Token.kind := by
  unfold step at h ⊢
  simp only [margin?_eq] at h ⊢
  split at h
  case h_1 =>
    cases h
    exact ⟨_, _, rfl, rfl⟩
  case h_2 =>
    split at h
    case isTrue hd =>
      cases h
      simp only [if_pos hd]
      exact ⟨_, _, rfl, rfl⟩
    case isFalse hd =>
      cases h
      simp only [if_neg hd]
      refine ⟨_, _, rfl, ?_⟩
      split <;> rfl
  case h_3 =>
    obtain ⟨⟨opened, widths⟩, ho, h⟩ := exists_ok_of_bind h
    cases h
    split at ho
    case isTrue hl =>
      cases ho
      simp only [if_pos hl]
      exact ⟨_, _, rfl, rfl⟩
    case isFalse hl =>
      simp only [if_neg hl]
      cases hb : blocks? (marginWidth s.margin) s.widths <;> rw [hb] at ho <;> cases ho
      refine ⟨_, _, rfl, ?_⟩
      simp
  case h_4 =>
    obtain ⟨_, -, h⟩ := exists_ok_of_bind h
    cases h
  case h_5 => cases h

theorem run_offset (h : run s ls = .ok tokens) (n : Nat) :
    ∃ more, run { s with offset := n } ls = .ok more ∧ more.map Token.kind = tokens.map Token.kind := by
  induction ls generalizing s tokens n
  case nil =>
    cases h
    refine ⟨_, rfl, ?_⟩
    simp only [finish, List.map_append, List.map_map]
    split <;> rfl
  case cons l ls hi =>
    obtain ⟨⟨first, u⟩, hs, h⟩ := exists_ok_of_bind h
    obtain ⟨rest, hr, h⟩ := exists_ok_of_bind h
    cases h
    obtain ⟨first', m, hs', hk⟩ := step_offset hs n
    obtain ⟨rest', hr', hk'⟩ := hi hr m
    exact ⟨first' ++ rest', run_cons hs' hr', by rw [List.map_append, List.map_append, hk, hk']⟩

theorem blocks?_zero (h : ∀ w ∈ widths, 0 < w) : blocks? 0 widths = some (widths.map fun _ => .dedent, []) := by
  have ht : widths.takeWhile (0 < ·) = widths := by simpa [List.takeWhile_eq_self_iff] using h
  simp [blocks?, ht]

-- A text that begins without a margin ends the blocks that are open in front of it.
theorem run_outdented {m : Nat} {margin : List Char} (h : run ⟨m, margin, 0, false, []⟩ ls = .ok tokens)
    (hi : ∀ t ∈ tokens.head?, t.kind ≠ .indent) (hw : ∀ w ∈ widths, 0 < w) (n : Nat) :
    ∃ more, run ⟨n, margin, 0, false, widths⟩ ls = .ok more ∧
      more.map Token.kind = widths.map (fun _ => .dedent) ++ tokens.map Token.kind := by
  induction ls generalizing m n margin tokens
  case nil =>
    cases h
    refine ⟨_, rfl, ?_⟩
    simp [finish]
  case cons l ls hr =>
    obtain ⟨p, cs⟩ := l
    obtain ⟨⟨first, u⟩, hs, hm⟩ := exists_ok_of_bind h
    obtain ⟨rest, ht, he⟩ := exists_ok_of_bind hm
    clear h hm
    cases he
    have ho := step_inv hs
    cases ho
    case joined hd    => exact (Nat.lt_irrefl _ hd).elim
    case ended ho     => exact (Bool.false_ne_true ho).elim
    case inside ho    => exact (Bool.false_ne_true ho).elim
    case blank =>
      obtain ⟨more, hm, hk⟩ := hr ht hi (n + utf8Length cs)
      exact ⟨[] ++ more, run_cons rfl hm, hk⟩
    case skipped =>
      obtain ⟨more, hm, hk⟩ := hr ht hi (n + utf8Length cs)
      exact ⟨[] ++ more, run_cons rfl hm, hk⟩
    case opens opened after k _ ho =>
      obtain ⟨hz, rfl, rfl⟩ : marginWidth margin = 0 ∧ opened = [] ∧ after = [] := by
        generalize marginWidth margin = column at ho
        generalize hn : ([] : List Nat) = widths at ho
        cases ho
        case indent => exact (hi _ rfl rfl).elim
        case dedents closed he =>
          obtain ⟨rfl, rfl⟩ := List.nil_eq_append_iff.mp hn
          exact ⟨he.symm, rfl, rfl⟩
      obtain ⟨first, hs, hf⟩ : ∃ first, step ⟨n, margin, 0, false, widths⟩ ⟨.token k, cs⟩ = .ok (first,
          ⟨n + utf8Length cs, [], depthAfter 0 k, true, []⟩) ∧ first.map Token.kind = widths.map (fun _ => .dedent) ++ [k] := by
        simp only [step, margin?_eq, hz, blocks?_zero hw]
        refine ⟨_, rfl, ?_⟩
        simp
      obtain ⟨more, hm, hk⟩ := run_offset ht (n + utf8Length cs)
      refine ⟨first ++ more, run_cons hs hm, ?_⟩
      rw [List.map_append, hf, hk, List.append_assoc]
      rfl

end Layout

theorem Nested.pos (h : Nested widths) : ∀ w ∈ widths, 0 < w :=
  fun w hw => (List.pairwise_append.mp h).right.right w hw 0 (.head _)

-- The tokens of two texts, one behind the other, are those of the first without its end and those of the second.
theorem tokenize_append (hf : tokenize first = .ok tokens) (hs : tokenize second = .ok more) (hl : EndsLine first)
    (hd : tokens.foldl (fun depth t => Layout.depthAfter depth t.kind) 0 = 0) (hi : ∀ t ∈ more.head?, t.kind ≠ .indent) :
    ∃ vs ws, tokenize (first ++ second) = .ok (vs ++ ws) ∧ tokens.map Token.kind = vs.map Token.kind ++ [.eof] ∧
      ws.map Token.kind = more.map Token.kind := by
  obtain ⟨init, t, ht, rfl⟩ := Layout.exists_steps hf
  have hd : t.depth = 0 := by
    rw [List.foldl_append, Layout.foldl_depthAfter_layout fun _ => Layout.isLayout_of_mem_finish] at hd
    exact ht.depth.trans hd
  have ho := ht.outside (hl.imp_left fun hl => by rw [hl, Lexeme.scan]) hd
  obtain ⟨ws, hw, hk⟩ := Layout.run_outdented hs hi (ht.nested (List.pairwise_singleton ..)).pos t.offset
  rw [← ho] at hw
  have hv : tokenize (first ++ second) = .ok (init ++ ws) := by
    rw [tokenize, Lexeme.scan_append ((hl.isLines ht.not_isLast).imp_right .inl) ht.not_isLast]
    exact ht.run_append hw
  obtain ⟨as, bs, rfl, ha, hb⟩ := List.map_eq_append_iff.mp hk
  refine ⟨init ++ as, bs, by rw [hv, List.append_assoc], ?_, hb⟩
  rw [List.map_append, List.map_append, ha, List.append_assoc, ho]
  simp [Layout.finish]

-- Lines end, and so do some blocks that are open in front of them.
structure Finished (n : Nat) (ks : List Kind) : Prop where
  blocks  : n + ks.count .indent = ks.count .dedent
  last    : ∀ k ∈ ks.getLast?, k.isLayout
  within  : .eof ∉ ks

namespace Line.IsShaped

variable {line : Line}

theorem kind_ne (h : line.IsShaped) : ∀ t ∈ line.tokens, t.kind ≠ .eof := by
  have hn {t : PyVerify.Token} (ht : ¬t.kind.isLayout) : t.kind ≠ .eof := fun he => ht <| he ▸ rfl
  refine List.forall_mem_append.mpr ⟨fun t ht => ?_, List.forall_mem_cons.mpr ⟨hn h.first, List.forall_mem_append.mpr ⟨?_, ?_⟩⟩⟩
  case refine_1 =>
    obtain ⟨_, hm, hk⟩ | hm := h.margin
    case inl =>
      rw [hm] at ht
      rw [List.mem_singleton.mp ht, hk]
      nofun
    case inr =>
      rw [hm t ht]
      nofun
  case refine_2 => exact fun t ht => hn <| h.more t ht
  case refine_3 => exact List.forall_mem_singleton.mpr <| h.stop ▸ nofun

theorem head_ne (h : line.IsShaped) : ∀ t ∈ line.tokens.head?, t.kind ≠ .newline := by
  intro t ht
  obtain ⟨_, hm, hk⟩ | hm := h.margin <;> unfold tokens at ht
  case inl =>
    rw [hm] at ht
    cases ht
    rw [hk]
    nofun
  case inr =>
    cases hl : line.margin <;> rw [hl] at ht <;> cases ht
    case nil =>
      intro hk
      exact h.first <| hk ▸ rfl
    case cons =>
      rw [hm t <| hl ▸ .head _]
      nofun

end Line.IsShaped

namespace Laid

theorem exists_init (h : Laid text [] tokens) : ∃ init z, tokens = init ++ [⟨.eof, z⟩] ∧ (∀ t ∈ init, t.kind ≠ .eof) ∧
    ∀ t ∈ init.getLast?, t.kind.isLayout := by
  obtain ⟨lines, rfl, hl, -⟩ := h
  refine ⟨_, _, rfl, List.forall_mem_append.mpr ⟨fun t ht => ?_, fun t ht => ?_⟩, fun t ht => ?_⟩
  case refine_1 =>
    obtain ⟨l, hm, ht⟩ := List.mem_flatMap.mp ht
    exact (hl l hm).kind_ne t ht
  case refine_2 =>
    obtain ⟨_, -, rfl⟩ := List.mem_map.mp ht
    nofun
  case refine_3 =>
    rw [List.getLast?_append] at ht
    obtain ht | ⟨-, ht⟩ := Option.or_eq_some_iff.mp ht
    case inl =>
      obtain ⟨_, -, rfl⟩ := List.mem_map.mp <| List.mem_of_getLast? ht
      rfl
    case inr =>
      obtain rfl | ⟨init, l, rfl⟩ := lines.eq_nil_or_concat'
      case inl => cases ht
      case inr =>
        have he : l.tokens = (l.margin ++ l.first :: l.more) ++ [l.stop] := by simp [Line.tokens]
        rw [List.flatMap_append, List.flatMap_singleton, he, ← List.append_assoc, List.getLast?_concat] at ht
        cases ht
        rw [(hl l <| by simp).stop]
        rfl

theorem head_ne (h : Laid text [] tokens) : ∀ t ∈ tokens.head?, t.kind ≠ .newline := by
  obtain ⟨lines, rfl, hl, -⟩ := h
  cases lines
  case nil =>
    rintro t ⟨⟩
    nofun
  case cons l lines =>
    intro t ht
    obtain ⟨u, us, hu⟩ := List.exists_cons_of_ne_nil <| show l.tokens ≠ [] by simp [Line.tokens]
    rw [List.flatMap_cons, hu] at ht
    exact (List.forall_mem_cons.mp hl).left.head_ne t <| hu ▸ ht

end Laid

theorem tokenize_finished (h : tokenize text = .ok tokens) : ∃ ks, tokens.map Token.kind = ks ++ [.eof] ∧ Finished 0 ks := by
  have hr := Layout.run_of_tokenize h
  obtain ⟨init, z, rfl, hi, hl⟩ := Laid.exists_init <| hr.goesOn .initial (List.pairwise_singleton ..)
  have hb := hr.balanced.right
  refine ⟨init.map Token.kind, List.map_append, ?_, ?_, ?_⟩
  case refine_1 =>
    simp only [List.count, List.countP_map]
    simpa [Function.comp_def, beq_eq_decide, eq_comm, Layout.State.initial] using hb
  case refine_2 =>
    intro k hk
    rw [List.getLast?_map] at hk
    obtain ⟨t, ht, rfl⟩ := Option.map_eq_some_iff.mp hk
    exact hl t ht
  case refine_3 =>
    intro hm
    obtain ⟨t, ht, he⟩ := List.mem_map.mp hm
    exact hi t ht he

theorem tokenize_head_ne (h : tokenize text = .ok tokens) : ∀ t ∈ tokens.head?, t.kind ≠ .newline :=
  Laid.head_ne <| (Layout.run_of_tokenize h).goesOn .initial (List.pairwise_singleton ..)

end PyVerify.Token
