import PyVerify.Proofs.Token.Failure
import PyVerify.Proofs.Token.Local

namespace PyVerify.Token

open Code (isEscaped isEscaped_cons)

variable {quote c d : Char} {cs ds body after text rest markers : List Char} {n : Nat}

namespace Quotation

-- Three quotes end a literal, behind backslashes that all have a character behind them.
def Closes (quote : Char) (body : List Char) : Prop :=
  ∃ content more, body = content ++ List.replicate 3 quote ++ more ∧ isEscaped content

-- A character of several bytes is found before the quotes that end the literal.
def Splits (quote : Char) (cs : List Char) : Prop :=
  ∃ body c after, cs = body ++ c :: after ∧ (∀ b ∈ body, b.toNat < 128) ∧ 128 ≤ c.toNat ∧ ¬Closes quote body

theorem isQuote_ascii (h : isQuote quote) : quote.toNat < 128 ∧ quote ≠ '\\' := by
  have hq : quote = '"' ∨ quote = '\'' := by simpa [isQuote] using h
  obtain rfl | rfl := hq <;> decide

theorem not_closes_of_length (h : body.length < 3) : ¬Closes quote body := by
  rintro ⟨content, more, rfl, -⟩
  simp only [List.length_append, List.length_replicate] at h
  omega

theorem closes_cons (hc : c ≠ '\\') (hp : ¬List.replicate 3 quote <+: c :: body) : Closes quote (c :: body) ↔ Closes quote body := by
  constructor
  case mp =>
    rintro ⟨content, more, he, hs⟩
    cases content
    case nil => exact (hp ⟨more, he.symm⟩).elim
    case cons =>
      obtain ⟨rfl, rfl⟩ := List.cons.inj he
      exact ⟨_, more, rfl, by rwa [isEscaped_cons hc] at hs⟩
  case mpr =>
    rintro ⟨content, more, rfl, hs⟩
    exact ⟨c :: content, more, rfl, by rwa [isEscaped_cons hc]⟩

theorem closes_escape (hq : quote ≠ '\\') : Closes quote ('\\' :: d :: body) ↔ Closes quote body := by
  constructor
  case mp =>
    rintro ⟨content, more, he, hs⟩
    obtain _ | ⟨x, _ | ⟨y, content⟩⟩ := content
    case nil => exact (hq (List.cons.inj he).left.symm).elim
    case cons.nil =>
      obtain ⟨rfl, -⟩ := List.cons.inj he
      cases hs
    case cons.cons =>
      obtain ⟨rfl, ht⟩ := List.cons.inj he
      obtain ⟨rfl, rfl⟩ := List.cons.inj ht
      exact ⟨content, more, rfl, hs⟩
  case mpr =>
    rintro ⟨content, more, rfl, hs⟩
    exact ⟨'\\' :: d :: content, more, rfl, hs⟩

-- What is found does not depend on a character of one byte in front of it, unless the literal ends there.

theorem splits_cons (ha : ¬128 ≤ c.toNat) (hc : c ≠ '\\') (hp : ¬List.replicate 3 quote <+: c :: cs) :
    Splits quote (c :: cs) ↔ Splits quote cs := by
  have hn {body : List Char} (hb : body <+: cs) : ¬List.replicate 3 quote <+: c :: body :=
    fun h => hp <| h.trans <| List.cons_prefix_cons.mpr ⟨rfl, hb⟩
  constructor
  case mp =>
    rintro ⟨body, b, after, he, hb, hs, hk⟩
    cases body
    case nil =>
      cases he
      exact (ha hs).elim
    case cons =>
      obtain ⟨rfl, rfl⟩ := List.cons.inj he
      exact ⟨_, b, after, rfl, (List.forall_mem_cons.mp hb).right, hs, (closes_cons hc <| hn <| List.prefix_append ..).not.mp hk⟩
  case mpr =>
    rintro ⟨body, b, after, rfl, hb, hs, hk⟩
    refine ⟨c :: body, b, after, rfl, List.forall_mem_cons.mpr ⟨Nat.lt_of_not_le ha, hb⟩, hs, ?_⟩
    exact (closes_cons hc <| hn <| List.prefix_append ..).not.mpr hk

theorem splits_escape (hq : quote ≠ '\\') (hd : ¬128 ≤ d.toNat) : Splits quote ('\\' :: d :: ds) ↔ Splits quote ds := by
  constructor
  case mp =>
    rintro ⟨body, b, after, he, hb, hs, hk⟩
    obtain _ | ⟨x, _ | ⟨y, body⟩⟩ := body
    case nil =>
      cases he
      exact (absurd hs <| by decide)
    case cons.nil =>
      cases he
      exact (hd hs).elim
    case cons.cons =>
      obtain ⟨rfl, ht⟩ := List.cons.inj he
      obtain ⟨rfl, rfl⟩ := List.cons.inj ht
      exact ⟨body, b, after, rfl, fun b h => hb b <| .tail _ <| .tail _ h, hs, (closes_escape hq).not.mp hk⟩
  case mpr =>
    rintro ⟨body, b, after, rfl, hb, hs, hk⟩
    refine ⟨'\\' :: d :: body, b, after, rfl, ?_, hs, (closes_escape hq).not.mpr hk⟩
    exact List.forall_mem_cons.mpr ⟨by decide, List.forall_mem_cons.mpr ⟨Nat.lt_of_not_le hd, hb⟩⟩

theorem not_splits_of_prefix (hq : quote.toNat < 128) (hp : List.replicate 3 quote <+: cs) : ¬Splits quote cs := by
  rintro ⟨body, c, after, rfl, -, hs, hk⟩
  by_cases hl : body.length < 3
  case pos =>
    have hc : c = quote := by
      have hg := hp.getElem (i := body.length) (by simpa using hl)
      rw [List.getElem_replicate] at hg
      simpa using hg.symm
    exact (Nat.not_lt.mpr hs) (hc ▸ hq)
  case neg =>
    have hb : List.replicate 3 quote <+: body :=
      List.prefix_of_prefix_length_le hp (List.prefix_append ..) (by simpa using Nat.le_of_not_lt hl)
    obtain ⟨more, rfl⟩ := hb
    exact hk ⟨[], more, rfl, rfl⟩

theorem LongBody.extend_eq_split_iff {b : LongBody} : b.extend n = .split ↔ b = .split := by
  cases b <;> simp [extend]

theorem longBody_eq_split_iff (hq : isQuote quote) : longBody quote cs = .split ↔ Splits quote cs := by
  obtain ⟨ha, hb⟩ := isQuote_ascii hq
  have last {cs : List Char} (hc : ∀ c ∈ cs, ¬128 ≤ c.toNat) : ¬Splits quote cs := by
    rintro ⟨body, c, after, rfl, -, hs, -⟩
    exact hc c (by simp) hs
  fun_induction longBody quote cs
  case case1 => exact iff_of_false (by simp) (last <| by simp)
  case case2 c cs hc => exact iff_of_true rfl ⟨[], c, cs, rfl, by simp, hc, not_closes_of_length (by decide)⟩
  case case3 => exact iff_of_false (by simp) (last <| List.forall_mem_singleton.mpr <| by decide)
  case case4 d ds hd _ =>
    refine iff_of_true rfl ⟨['\\'], d, ds, rfl, ?_, hd, not_closes_of_length (by decide)⟩
    exact List.forall_mem_singleton.mpr (by decide)
  case case5 hd _ hi => exact LongBody.extend_eq_split_iff.trans <| hi.trans (splits_escape hb hd).symm
  case case6 hp => exact iff_of_false (by simp) <| not_splits_of_prefix ha <| List.isPrefixOf_iff_prefix.mp hp
  case case7 hc hn hp hi =>
    exact LongBody.extend_eq_split_iff.trans <| hi.trans (splits_cons hc hn <| mt List.isPrefixOf_iff_prefix.mpr hp).symm

theorem read_eq_split_iff (hq : isQuote quote) : read quote after = .split ↔ ∃ cs, after = quote :: quote :: cs ∧ Splits quote cs := by
  unfold read
  split
  case isTrue hp =>
    obtain ⟨cs, rfl⟩ := List.isPrefixOf_iff_prefix.mp hp
    have hs : (∃ ds, [quote, quote] ++ cs = quote :: quote :: ds ∧ Splits quote ds) ↔ longBody quote cs = .split := by
      simp [longBody_eq_split_iff hq]
    rw [hs]
    cases hl : longBody quote cs <;> simp [hl]
  case isFalse hp =>
    refine iff_of_false (by split <;> simp) ?_
    rintro ⟨cs, rfl, -⟩
    exact hp <| List.isPrefixOf_iff_prefix.mpr ⟨cs, rfl⟩

end Quotation

namespace Lexeme

-- Markers and three quotes begin a literal that is not read to its end.
def Aborts (cs : List Char) : Prop :=
  ∃ markers quote after, cs = markers ++ List.replicate 3 quote ++ after ∧ markers.length ≤ 2 ∧
    (∀ c ∈ markers, Quotation.isMarker c) ∧ Quotation.isQuote quote ∧ Quotation.Splits quote after

theorem readNumeral_ne_broken : (readNumeral cs).fst ≠ .broken := by
  simp only [readNumeral]
  split <;> simp

theorem readSign_ne_broken : (readSign cs).fst ≠ .broken := by
  unfold readSign
  split <;> simp

theorem literal?_eq_broken_iff : (∃ n, literal? markers quote after = some (.broken, n)) ↔ Quotation.read quote after = .split := by
  unfold literal?
  split <;> simp_all

theorem aborts_of_literal? (hm : markers.length ≤ 2) (hs : ∀ c ∈ markers, Quotation.isMarker c) (hq : Quotation.isQuote quote)
    (h : literal? markers quote after = some (.broken, n)) : Aborts (markers ++ quote :: after) := by
  obtain ⟨cs, rfl, hc⟩ := (Quotation.read_eq_split_iff hq).mp <| literal?_eq_broken_iff.mp ⟨n, h⟩
  exact ⟨markers, quote, cs, by simp [List.replicate], hm, hs, hq, hc⟩

theorem aborts_of_readWord (h : (readWord text rest).fst = .broken) : Aborts (text ++ rest) := by
  simp only [readWord] at h
  split at h
  case h_2 => cases h
  case h_1 quote after =>
    split at h
    case isFalse => cases h
    case isTrue hm =>
      simp only [Bool.and_eq_true, decide_eq_true_eq, List.all_eq_true] at hm
      obtain ⟨⟨hm, hs⟩, hq⟩ := hm
      split at h
      case h_2 => cases h
      case h_1 hl =>
        cases h
        exact aborts_of_literal? hm hs hq hl

theorem aborts_of_read (h : (read cs).fst = .broken) : Aborts cs := by
  unfold read at h
  split at h
  case h_6 =>
    split at h
    case isTrue   => exact (readNumeral_ne_broken h).elim
    case isFalse  => exact (readSign_ne_broken h).elim
  case h_7 c cs _ _ _ _ _ _ =>
    split at h
    case isTrue => cases h
    split at h
    case isTrue => exact (readNumeral_ne_broken h).elim
    split at h
    case isTrue =>
      have hw := aborts_of_readWord h
      rwa [drop_length_takeWhile, List.cons_append, List.takeWhile_append_dropWhile] at hw
    split at h
    case isFalse => exact (readSign_ne_broken h).elim
    case isTrue hq =>
      cases hl : literal? [] c cs <;> rw [hl] at h
      case none => cases h
      case some r =>
        obtain ⟨p, n⟩ := r
        cases (h : p = .broken)
        have ha : Aborts ([] ++ c :: cs) := aborts_of_literal? (Nat.zero_le _) nofun hq hl
        exact ha
  all_goals cases h

theorem isNameChar_of_isQuote (h : Quotation.isQuote quote) : isNameChar quote = false := by
  have hq : quote = '"' ∨ quote = '\'' := by simpa [Quotation.isQuote] using h
  obtain rfl | rfl := hq <;> rfl

theorem isMarker_cases (h : Quotation.isMarker c) : c ∉ leads ∧ isBlank c = false ∧ c.isDigit = false ∧ isNameChar c := by
  have hm : "rRbBuUfF".toList.all fun c => c ∉ leads ∧ isBlank c = false ∧ c.isDigit = false ∧ isNameChar c := by decide
  exact of_decide_eq_true <| List.all_eq_true.mp hm c (by simpa [Quotation.isMarker] using h)

theorem read_of_aborts (h : Aborts cs) : (read cs).fst = .broken := by
  obtain ⟨markers, quote, after, rfl, hm, hs, hq, hc⟩ := h
  obtain ⟨n, hl⟩ : ∃ n, literal? markers quote (quote :: quote :: after) = some (.broken, n) :=
    literal?_eq_broken_iff.mpr <| (Quotation.read_eq_split_iff hq).mpr ⟨after, rfl, hc⟩
  change (read (markers ++ [quote, quote, quote] ++ after)).fst = _
  rw [List.append_assoc]
  cases markers
  case nil =>
    rw [List.nil_append, List.cons_append, read_quote hq]
    change ((literal? [] quote (quote :: quote :: after)).getD _).fst = _
    rw [hl]
    rfl
  case cons c more =>
    obtain ⟨hc, hb, hd, hn⟩ := isMarker_cases (hs c (.head _))
    have hw : (more ++ ([quote, quote, quote] ++ after)).takeWhile isNameChar = more := by
      refine takeWhile_eq_of (fun c hc => (isMarker_cases (hs c (.tail _ hc))).right.right.right) ?_
      rintro _ ⟨⟩
      exact isNameChar_of_isQuote hq
    have hm : (c :: more).length ≤ 2 && (c :: more).all Quotation.isMarker && Quotation.isQuote quote := by
      simp only [Bool.and_eq_true, decide_eq_true_eq, List.all_eq_true]
      exact ⟨⟨hm, hs⟩, hq⟩
    rw [List.cons_append, read_of_not_mem_leads hc, if_neg (by simp [hb]), if_neg (by simp [hd]), if_pos hn, hw, List.drop_left]
    simp only [readWord, List.cons_append, List.nil_append]
    rw [if_pos hm, hl]

end Lexeme

-- A text is read to tokens or to a diagnosis, unless it has a long literal in which a character of several bytes is found
-- before the closing quotes, and everything before that is read.
theorem tokenize_eq_aborted_iff (text : List Char) : tokenize text = .error .aborted ↔
    ∃ before rest s, text = before ++ rest ∧ Layout.Comes .initial text s rest ∧ Lexeme.Aborts rest := by
  refine Layout.run_scan_eq_error_iff.trans ?_
  constructor
  case mp =>
    rintro ⟨s, c, ds, p, n, hc, hr, hf⟩
    obtain ⟨before, hd, -⟩ := hc.behind .initial
    refine ⟨before, c :: ds, s, hd, hc, ?_⟩
    cases Layout.fails_of_step hf
    exact Lexeme.aborts_of_read (congrArg Prod.fst hr)
  case mpr =>
    rintro ⟨before, rest, s, -, hc, ha⟩
    have hb := Lexeme.read_of_aborts ha
    cases rest
    case nil => cases hb
    case cons c ds => exact ⟨s, c, ds, .broken, _, hc, Prod.ext hb rfl, rfl⟩

-- A letter with an accent.
def accented : List Char :=
  "\"\"\"é\"\"\"".toList

theorem accented_aborted : tokenize accented = .error .aborted := by
  decide +kernel

end PyVerify.Token
