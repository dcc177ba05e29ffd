import PyVerify.Proofs.Token.Numeral

namespace PyVerify.Token

variable {quote c : Char} {cs ds w rest markers sign : List Char} {m n : Nat} {q : Char → Bool}

-- What is read of a line does not depend on what stands behind it.

namespace Quotation

theorem lineBody_append (h : IsLines cs) : lineBody quote (cs ++ ds) = lineBody quote cs := by
  fun_induction lineBody quote cs
  case case1 => exact (h.ne_nil rfl).elim
  case case2 =>
    unfold lineBody
    simp
  case case3 => exact ((h.tail <| by decide).ne_nil rfl).elim
  case case4 hq => simp [lineBody, hq]
  case case5 hd _ _ hb hq hi =>
    have hs := hi ((h.tail <| by decide).tail hd)
    simp [lineBody, hq, hd, hs, hb]
  case case6 hq hb hr =>
    unfold lineBody
    simp [hq, hb, hr]
  case case7 hq hb hr _ _ hs hi =>
    have hs := hi <| h.tail fun hn => hr (.inr hn)
    unfold lineBody
    simp_all

theorem longBody_append (ds : List Char) (h : longBody quote cs = .closed n) : longBody quote (cs ++ ds) = .closed n := by
  fun_induction longBody quote cs generalizing n
  case case5 hd hb hi =>
    obtain ⟨m, hm, rfl⟩ := LongBody.extend_eq_closed h
    simp_all [longBody, LongBody.extend]
  case case6 c cs hc hb hq =>
    have hp := isPrefixOf_append_of_le ds (List.isPrefixOf_iff_prefix.mp hq).length_le
    rw [hq] at hp
    unfold longBody
    rw [List.cons_append] at hp ⊢
    simp_all only [if_true, if_false]
  case case7 hc hb hq hi =>
    obtain ⟨m, hm, rfl⟩ := LongBody.extend_eq_closed h
    obtain ⟨body, rest, rfl, -⟩ := longBody_closed hm
    rw [Bool.not_eq_true, ← isPrefixOf_append_of_le ds (by simp; omega), List.cons_append] at hq
    unfold longBody
    simp_all only [List.cons_append, if_false, hi hm]
    rfl
  all_goals cases h

theorem lineBody_append_closed (ds : List Char) (h : lineBody quote cs = (n, true)) : lineBody quote (cs ++ ds) = (n, true) := by
  fun_induction lineBody quote cs generalizing n
  case case2 =>
    cases h
    unfold lineBody
    simp
  case case5 hd m closed hb _ hi =>
    cases h
    simp_all [lineBody]
  case case7 hq hb hr m closed hs hi =>
    cases h
    unfold lineBody
    simp_all
  all_goals cases h

theorem ne_newline (h : isQuote quote) : quote ≠ '\n' := by
  rintro rfl
  cases h

theorem ne_return (h : isQuote quote) : quote ≠ '\r' := by
  rintro rfl
  cases h

theorem isPrefixOf_append (h : Sealed cs ds) (hq : isQuote quote) :
    [quote, quote].isPrefixOf (cs ++ ds) = [quote, quote].isPrefixOf cs :=
  h.isPrefixOf_append (by simpa using (ne_return hq).symm) (by simpa using (ne_newline hq).symm)

theorem read_append {body : List Char} (h : Sealed cs ds) (hq : isQuote quote) (hr : read quote cs = .literal body n) :
    read quote (cs ++ ds) = .literal body n := by
  unfold read at hr ⊢
  rw [isPrefixOf_append h hq]
  split at hr
  case isTrue hp =>
    obtain ⟨text, rfl⟩ := List.isPrefixOf_iff_prefix.mp hp
    cases hb : longBody quote text
    case closed n =>
      obtain ⟨body, rest, rfl, rfl⟩ := longBody_closed hb
      have hb' := longBody_append ds hb
      simp_all
      exact hr.left ▸ hr.right
    all_goals simp_all
  case isFalse hp =>
    split at hr
    case h_2 => cases hr
    case h_1 hb =>
      obtain ⟨body, rest, rfl, rfl⟩ := lineBody_closed hb
      have hb' := lineBody_append_closed ds hb
      simp_all
      exact hr.left ▸ hr.right

theorem read_le {body : List Char} (h : read quote cs = .literal body n) : n ≤ cs.length := by
  obtain ⟨k, rest, -, hc, hn⟩ := read_literal h
  have hl := congrArg List.length hc
  rw [List.length_append, ← hn, List.length_cons] at hl
  omega

end Quotation

namespace Lexeme

-- What a reader takes is in the text, and what stands behind the text changes nothing.
structure IsLocal (reader : List Char → Piece × Nat) (cs ds : List Char) : Prop where
  append  : reader (cs ++ ds) = reader cs
  le      : (reader cs).snd ≤ cs.length

theorem IsLocal.of_eq {f g : List Char → Piece × Nat} (h : IsLocal f cs ds) (he : ∀ es, g (cs ++ es) = f (cs ++ es)) :
    IsLocal g cs ds := by
  have hc : g cs = f cs := by simpa using he []
  exact ⟨by rw [he, hc, h.append], hc ▸ h.le⟩

-- A character and those of a kind behind it.
theorem IsLocal.run {f : List Char → Piece × Nat} {p : Piece} (h : Sealed cs ds) (hr : q '\r' = false) (hn : q '\n' = false)
    (he : ∀ ds, f (c :: ds) = (p, 1 + (ds.takeWhile q).length)) : IsLocal f (c :: cs) ds := by
  refine ⟨?_, ?_⟩
  case refine_1 => rw [List.cons_append, he, he, h.takeWhile_append hr hn]
  case refine_2 =>
    rw [he, Nat.add_comm]
    exact Nat.succ_le_succ (List.takeWhile_prefix q).length_le

theorem literal?_append {r : Piece × Nat} (h : Sealed cs ds) (hq : Quotation.isQuote quote)
    (hr : literal? markers quote cs = some r) (hl : ¬isLast r.fst) :
    literal? markers quote (cs ++ ds) = some r ∧ r.snd ≤ cs.length + 1 := by
  unfold literal? at hr
  split at hr <;> cases hr
  case h_1 hb => exact ⟨by simp only [literal?, Quotation.read_append h hq hb], Nat.succ_le_succ <| Quotation.read_le hb⟩
  all_goals exact (hl rfl).elim

-- Whether a literal begins at a quote does not depend on its markers.
theorem literal?_eq_none {others : List Char} (h : literal? markers quote cs = none) : literal? others quote cs = none := by
  unfold literal? at h ⊢
  split at h <;> simp_all

theorem isLocal_readNumeral (h : Sealed cs ds) : IsLocal readNumeral cs ds := by
  have hn : (Numeral.measure cs).snd ≤ cs.length := Numeral.measure_le
  constructor
  case append => simp only [readNumeral, Numeral.measure_append h, List.take_append_of_le_length hn]
  case le =>
    simp only [readNumeral]
    split <;> exact hn

theorem not_mem_signs : ∀ s ∈ signs, '\r' ∉ s.fst ∧ '\n' ∉ s.fst := by
  simp [signs]

theorem isLocal_readSign (h : Sealed (c :: cs) ds) : IsLocal readSign (c :: cs) ds := by
  constructor
  case append =>
    unfold readSign
    rw [List.find?_congr fun s hs => h.isPrefixOf_append (not_mem_signs s hs).left (not_mem_signs s hs).right]
  case le =>
    unfold readSign
    split
    case h_1 hf =>
      have hq := List.find?_some hf
      exact (List.isPrefixOf_iff_prefix.mp hq).length_le
    case h_2 => exact Nat.succ_pos _

-- The characters that begin a piece with what is behind them.
def leads : List Char :=
  ['\n', '\r', '\\', '#', '.']

theorem not_mem_leads (h : q c) (hq : leads.any q = false) : c ∉ leads :=
  fun hc => List.any_eq_false.mp hq c hc h

theorem read_of_not_mem_leads (h : c ∉ leads) : read (c :: cs) =
    if isBlank c then (.blank, 1 + (cs.takeWhile isBlank).length)
    else if c.isDigit then readNumeral (c :: cs)
    else if isNameChar c then readWord (c :: cs.takeWhile isNameChar) (cs.drop (cs.takeWhile isNameChar).length)
    else if Quotation.isQuote c then (literal? [] c cs).getD (.fault .unterminatedString, 1)
    else readSign (c :: cs) := by
  simp only [leads, List.mem_cons, List.not_mem_nil, not_or] at h
  unfold read
  split <;> simp_all

theorem read_quote (h : Quotation.isQuote c) : read (c :: cs) = (literal? [] c cs).getD (.fault .unterminatedString, 1) := by
  have hc : c = '"' ∨ c = '\'' := by simpa [Quotation.isQuote] using h
  obtain rfl | rfl := hc <;> rfl

-- The pieces of a text with no last one among them.
def IsClean (cs : List Char) : Prop :=
  ∀ l ∈ scan cs, ¬isLast l.piece

theorem isClean_cons (h : IsClean (c :: cs)) :
    ¬isLast (read (c :: cs)).fst ∧ IsClean ((c :: cs).drop ((read (c :: cs)).snd - 1 + 1)) := by
  unfold IsClean at h
  rw [scan] at h
  simp only at h
  split at h
  case isTrue hp  => exact (h _ (.head _) hp).elim
  case isFalse hp => exact ⟨hp, (List.forall_mem_cons.mp h).right⟩

-- The text begins with markers and a quote: what is read depends on whether a literal begins there.
structure IsQuoted (cs w : List Char) (quote : Char) (after : List Char) (plain : Piece × Nat) : Prop where
  text      : cs = w ++ quote :: after
  short     : w.length ≤ 2
  markers   : ∀ c ∈ w, Quotation.isMarker c
  isQuote   : Quotation.isQuote quote
  bare      : plain.snd = w.length ∧ w ≠ [] ∨ isLast plain.fst
  read_eq   : ∀ es, read (cs ++ es) = ((literal? w quote (after ++ es)).map fun r => (r.fst, w.length + r.snd)).getD plain

theorem IsQuoted.isLines {after : List Char} {plain : Piece × Nat} (h : IsQuoted cs w quote after plain) (hl : IsLines cs) :
    IsLines after := by
  have hm : '\n' ∉ w := by
    intro hm
    cases h.markers _ hm
  exact ((h.text ▸ hl).of_append hm).tail <| Quotation.ne_newline h.isQuote

theorem isQuoted_of_isQuote (h : Quotation.isQuote c) : IsQuoted (c :: cs) [] c cs (.fault .unterminatedString, 1) where
  text      := rfl
  short     := Nat.zero_le _
  markers   := nofun
  isQuote   := h
  bare      := .inr rfl
  read_eq es := by
    rw [List.cons_append, read_quote h]
    cases literal? [] c (cs ++ es) <;> simp

theorem isQuoted_of_readWord (hr : ∀ es, read (cs ++ es) = readWord w (quote :: (after ++ es))) (hc : cs = w ++ quote :: after)
    (hn : w ≠ []) (hm : w.length ≤ 2 && w.all Quotation.isMarker && Quotation.isQuote quote) :
    IsQuoted cs w quote after (.token (word w), w.length) := by
  have hs := hm
  simp only [Bool.and_eq_true, decide_eq_true_eq, List.all_eq_true] at hs
  refine ⟨hc, hs.left.left, hs.left.right, hs.right, .inl ⟨rfl, hn⟩, fun es => ?_⟩
  rw [hr, readWord]
  simp only [hm, if_true]
  cases literal? w quote (after ++ es) <;> rfl

theorem readWord_of_not (h : ∀ c ∈ rest.head?, ¬(w.length ≤ 2 && w.all Quotation.isMarker && Quotation.isQuote c)) :
    readWord w rest = (.token (word w), w.length) := by
  cases rest
  case nil => rfl
  case cons c cs =>
    simp only [readWord]
    rw [if_neg (h c rfl)]

theorem takeWhile_eq_of (hw : ∀ c ∈ w, q c) (hn : ∀ c ∈ rest.head?, q c = false) : (w ++ rest).takeWhile q = w := by
  rw [List.takeWhile_append_of_pos hw]
  cases rest
  case nil  => simp
  case cons => simp [hn _ rfl]

-- A word, with what stands behind it.
theorem word_cases (h : Sealed cs ds) (hr : ∀ es, read (c :: es) =
      readWord (c :: es.takeWhile isNameChar) (es.drop (es.takeWhile isNameChar).length)) :
    IsLocal read (c :: cs) ds ∨ ∃ w quote after plain, IsQuoted (c :: cs) w quote after plain := by
  obtain ⟨w, rest, rfl, hw, hn⟩ : ∃ w rest, cs = w ++ rest ∧ (∀ c ∈ w, isNameChar c) ∧ ∀ c ∈ rest.head?, isNameChar c = false := by
    refine ⟨cs.takeWhile isNameChar, cs.dropWhile isNameChar, List.takeWhile_append_dropWhile.symm,
      List.all_eq_true.mp List.all_takeWhile, fun c hc => ?_⟩
    have hn := List.head?_dropWhile_not isNameChar cs
    rw [hc] at hn
    simpa using hn
  have hr {es : List Char} (he : ∀ c ∈ es.head?, isNameChar c = false) : read (c :: (w ++ es)) = readWord (c :: w) es := by
    rw [hr, takeWhile_eq_of hw he, List.drop_left]
  by_cases hq : ∃ quote ∈ rest.head?, (c :: w).length ≤ 2 && (c :: w).all Quotation.isMarker && Quotation.isQuote quote
  case pos =>
    obtain ⟨quote, hh, hq⟩ := hq
    obtain ⟨after, rfl⟩ := List.head?_eq_some_iff.mp hh
    refine .inr ⟨c :: w, quote, after, _, isQuoted_of_readWord (fun es => ?_) rfl nofun hq⟩
    rw [List.cons_append, List.append_assoc]
    exact hr hn
  case neg =>
    have hs : Sealed rest ds := h.imp fun h => h.of_append <| by
      intro hm
      cases hw _ hm
    have hb : ∀ c ∈ (rest ++ ds).head?, c ∈ rest.head? ∨ c = '\r' ∨ c = '\n' := by
      cases rest
      case cons => exact fun c hc => .inl hc
      case nil  => exact fun c hc => .inr (hs.of_nil c hc)
    have ha : readWord (c :: w) (rest ++ ds) = (.token (word (c :: w)), (c :: w).length) := readWord_of_not <| by
      intro d hd hm
      obtain hd | rfl | rfl := hb d hd
      · exact hq ⟨d, hd, hm⟩
      · simp [Quotation.isQuote] at hm
      · simp [Quotation.isQuote] at hm
    have he : readWord (c :: w) rest = (.token (word (c :: w)), (c :: w).length) :=
      readWord_of_not fun d hd hm => hq ⟨d, hd, hm⟩
    refine .inl ⟨?_, ?_⟩
    case refine_1 =>
      rw [List.cons_append, List.append_assoc, hr hn, he, hr, ha]
      intro d hd
      obtain hd | rfl | rfl := hb d hd
      · exact hn d hd
      · rfl
      · rfl
    case refine_2 =>
      rw [hr hn, he]
      simp

theorem isLast_readSign (h : c = '\r' ∨ c = '\\') : isLast (readSign (c :: cs)).fst := by
  obtain rfl | rfl := h <;> rfl

theorem read_return (h : ∀ c ∈ cs.head?, c ≠ '\n') : read ('\r' :: cs) = readSign ('\r' :: cs) := by
  cases cs
  case nil  => rfl
  case cons => simp [read, h _ rfl, isBlank, isNameChar, Quotation.isQuote]

theorem read_backslash (h : ¬['\n'] <+: cs) (hr : ¬['\r', '\n'] <+: cs) : read ('\\' :: cs) = readSign ('\\' :: cs) := by
  unfold read
  split
  case h_7 he =>
    cases he
    rfl
  all_goals simp_all

-- What is read does not depend on what stands behind the text, unless a literal begins there, or the text ends with
-- what could be the beginning of a line break.
theorem read_cases (h : Sealed cs ds) (hn : cs ≠ []) : IsLocal read cs ds ∨
    (isLast (read cs).fst ∧ (IsLines cs → isLast (read (cs ++ ds)).fst)) ∨
    ∃ w quote after plain, IsQuoted cs w quote after plain := by
  fun_cases read cs
  case case1 | case2 | case3 | case4 =>
    refine .inl ⟨rfl, ?_⟩
    simp [read]
  case case5 => exact .inl <| .run (h.tail <| by decide) rfl rfl fun _ => rfl
  case case6 hd => exact .inl <| (isLocal_readNumeral h).of_eq fun _ => by simp [read, hd]
  case case7 hd => exact .inl <| (isLocal_readSign h).of_eq fun _ => by simp [read, hd]
  case case8 hb =>
    have hc := not_mem_leads hb (by decide)
    refine .inl <| .run (p := .blank) (q := isBlank) (h.tail <| by rintro rfl; cases hb) rfl rfl fun _ => ?_
    rw [read_of_not_mem_leads hc, if_pos hb]
  case case9 hb hd =>
    have hc := not_mem_leads hd (by decide)
    refine .inl <| (isLocal_readNumeral h).of_eq fun _ => ?_
    rw [List.cons_append, read_of_not_mem_leads hc, if_neg hb, if_pos hd]
  case case10 c cs _ _ _ _ _ _ hb hd hi _ =>
    have hc := not_mem_leads hi (by decide)
    have hs : Sealed cs ds := h.tail <| by rintro rfl; cases hi
    obtain h | h := word_cases hs fun _ => by rw [read_of_not_mem_leads hc, if_neg hb, if_neg hd, if_pos hi]
    case inl => exact .inl h
    case inr => exact .inr <| .inr h
  case case11 hq => exact .inr <| .inr ⟨_, _, _, _, isQuoted_of_isQuote hq⟩
  case case12 c cs hf hr hs hj hm ht hb hd hi hq =>
    by_cases hc : c ∈ leads
    case neg =>
      refine .inl <| (isLocal_readSign h).of_eq fun _ => ?_
      rw [List.cons_append, read_of_not_mem_leads hc, if_neg hb, if_neg hd, if_neg hi, if_neg hq]
    case pos =>
      simp only [leads, List.mem_cons, List.not_mem_nil, or_false] at hc
      obtain rfl | rfl | rfl | rfl | rfl := hc
      · exact (hf rfl).elim
      · refine .inr <| .inl ⟨isLast_readSign (.inl rfl), fun hl => ?_⟩
        have hs : ∀ d ∈ (cs ++ ds).head?, d ≠ '\n' := by
          obtain ⟨d, cs, rfl⟩ := List.exists_cons_of_ne_nil (hl.tail <| by decide).ne_nil
          rintro _ ⟨⟩ rfl
          exact hr _ rfl rfl
        rw [List.cons_append, read_return hs]
        exact isLast_readSign (.inl rfl)
      · refine .inr <| .inl ⟨isLast_readSign (.inr rfl), fun hl => ?_⟩
        have hl := hl.tail (by decide)
        have hb {br : List Char} (hb : IsBreak br) (hn : ¬br <+: cs) : ¬br <+: cs ++ ds := fun hp => hn <| hl.isPrefix hb hp
        rw [List.cons_append, read_backslash (hb (.inl rfl) _) (hb (.inr rfl) _)]
        · exact isLast_readSign (.inr rfl)
        · rintro ⟨es, rfl⟩
          exact hs _ rfl rfl
        · rintro ⟨es, rfl⟩
          exact hj _ rfl rfl
      · exact (hm rfl).elim
      · obtain rfl : cs = [] := by
          cases cs
          case nil  => rfl
          case cons => exact (ht _ _ rfl rfl).elim
        refine .inl ⟨?_, ?_⟩
        case refine_1 =>
          rw [← show readSign ['.'] = read ['.'] from rfl, ← (isLocal_readSign h).append]
          cases ds
          case nil => rfl
          case cons d ds => obtain rfl | rfl := (h.tail <| by decide).of_nil d rfl <;> rfl
        case refine_2 => exact (isLocal_readSign h).le
  case case13 => exact (hn rfl).elim

theorem isLocal_read (h : Sealed cs ds) (hn : cs ≠ []) (hl : IsClean cs) : IsLocal read cs ds := by
  obtain hr | ⟨hp, -⟩ | ⟨w, quote, after, plain, hq⟩ := read_cases h hn
  case inl => exact hr
  case inr.inl =>
    obtain ⟨c, cs, rfl⟩ := List.exists_cons_of_ne_nil hn
    exact ((isClean_cons hl).left hp).elim
  case inr.inr =>
    have he := by simpa using hq.read_eq []
    cases hr : literal? w quote after
    case some r =>
      rw [hr] at he
      have hp : ¬isLast r.fst := by
        obtain ⟨c, cs, rfl⟩ := List.exists_cons_of_ne_nil hn
        simpa [he] using (isClean_cons hl).left
      obtain ⟨ha, hm⟩ := literal?_append (h.imp hq.isLines) hq.isQuote hr hp
      refine ⟨?_, ?_⟩
      case refine_1 =>
        rw [hq.read_eq, ha, he]
      case refine_2 =>
        rw [he, hq.text]
        simp
        omega
    case none =>
      replace he : read cs = plain := by simpa [hr] using he
      obtain ⟨c, cs, rfl⟩ := List.exists_cons_of_ne_nil hn
      obtain ⟨hp, ht⟩ := isClean_cons hl
      rw [he] at hp ht
      obtain ⟨hs, hw⟩ | hb := hq.bare
      case inr => exact (hp hb).elim
      case inl =>
        -- Behind the word stands the quote, with which the line ends.
        have hd : (c :: cs).drop (plain.snd - 1 + 1) = quote :: after := by
          rw [hs, Nat.sub_add_cancel (List.length_pos_iff.mpr hw), hq.text, List.drop_left]
        rw [hd] at ht
        refine ((isClean_cons ht).left ?_).elim
        rw [read_quote hq.isQuote, literal?_eq_none hr]
        rfl

-- The pieces of a text stay the same, and those of what follows come behind them.
theorem scan_append (h : cs = [] ∨ Sealed cs ds) (hl : IsClean cs) : scan (cs ++ ds) = scan cs ++ scan ds := by
  fun_induction scan cs
  case case1 => rfl
  case case2 hr _ hp =>
    have hl := (isClean_cons hl).left
    rw [hr] at hl
    exact (hl hp).elim
  case case3 c cs p n hr lexeme hp hi =>
    have hs := h.resolve_left (List.cons_ne_nil _ _)
    obtain ⟨ha, hn⟩ := isLocal_read hs (List.cons_ne_nil _ _) hl
    have hl := (isClean_cons hl).right
    rw [hr] at ha hn hl
    have hn' : n - 1 ≤ cs.length := Nat.sub_le_of_le_add hn
    rw [List.drop_succ_cons] at hl
    rw [List.cons_append] at ha ⊢
    rw [scan]
    simp only [ha]
    rw [if_neg hp, List.take_append_of_le_length hn', List.drop_append_of_le_length hn', hi ?_ hl, List.cons_append]
    have hd := hs.drop (n := n - 1 + 1)
    rwa [List.drop_succ_cons] at hd

end Lexeme
end PyVerify.Token
