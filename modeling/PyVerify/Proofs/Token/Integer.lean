import PyVerify.Proofs.Token.Failure
import PyVerify.Proofs.Token.Lines
import PyVerify.Proofs.Token.Literal
import PyVerify.Proofs.Token.Local
import PyVerify.Proofs.Token.Lossless

namespace PyVerify.Token

open Numeral (Denotes KeepsValue)

-- A token stands for a stretch of the text.
def StandsFor (text inside : List Char) (t : PyVerify.Token) : Prop :=
  ∃ before after, text = before ++ (inside ++ after) ∧ t.span = .between (utf8Length before) (utf8Length (before ++ inside))

-- The tokens of a line with a single one on it.
def alone (k : Kind) (n : Nat) : List PyVerify.Token :=
  [⟨k, .between 0 n⟩, ⟨.newline, .point n⟩, ⟨.eof, .point n⟩]

-- The integers among the tokens of a text have the values of its integer literals.
structure KeepsIntegers (text : List Char) (tokens : List PyVerify.Token) : Prop where
  kept    : ∀ t ∈ tokens, ∀ inside, StandsFor text inside t → ∀ lead v, Denotes lead inside v → KeepsValue lead v t.kind
  denoted : ∀ t ∈ tokens, t.kind.isInteger → ∃ inside lead v, StandsFor text inside t ∧ Denotes lead inside v
  single  : ∀ lead v, Denotes lead text v → ∃ k, KeepsValue lead v k ∧ tokens = alone k (utf8Length text)

variable {n v : Nat} {c : Char} {cs lead text before inside after done rest markers : List Char} {k : Kind} {p : Piece}
variable {tokens : List PyVerify.Token} {t : PyVerify.Token}

namespace Lexeme

theorem not_isBlank_of_isDigit (h : c.isDigit) : ¬isBlank c := by
  intro hb
  have hc : (c = ' ' ∨ c = '\t') ∨ c = '\x0c' := by simpa [isBlank] using hb
  obtain (rfl | rfl) | rfl := hc <;> cases h

theorem read_digit (h : c.isDigit) : read (c :: cs) = readNumeral (c :: cs) := by
  rw [read_of_not_mem_leads (not_mem_leads h (by decide)), if_neg (not_isBlank_of_isDigit h), if_pos h]

-- A literal is read at least as far as its characters go.
theorem read_integer (h : Denotes lead text v) (hr : read (text ++ after) = (p, n)) :
    (text.length ≤ n ∧ n ≤ (text ++ after).length) ∧ (isLast p ∨ ∃ k, p = .token k ∧ (n = text.length → KeepsValue lead v k)) := by
  obtain ⟨c, cs, rfl, hc⟩ := h.exists_cons
  rw [List.cons_append, read_digit hc, ← List.cons_append] at hr
  obtain ⟨hn, hv⟩ := Numeral.measure_of_denotes after h
  have hl : (Numeral.measure (c :: cs ++ after)).snd ≤ _ := Numeral.measure_le
  simp only [readNumeral] at hr
  split at hr
  case h_2 =>
    cases hr
    exact ⟨⟨hn, hl⟩, .inl rfl⟩
  case h_1 k hk =>
    cases hr
    refine ⟨⟨hn, hl⟩, .inr ⟨k, rfl, fun he => ?_⟩⟩
    rw [he, List.take_left] at hk
    exact hv he k hk

theorem isInteger_word : (word cs).isInteger = false := by
  simp only [word]
  split <;> rfl

theorem isInteger_literal? (h : literal? markers c cs = some (.token k, n)) : k.isInteger = false := by
  unfold literal? at h
  split at h <;> cases h
  unfold Quotation.kind
  split <;> rfl

theorem isInteger_readWord (h : (readWord text rest).fst = .token k) : k.isInteger = false := by
  simp only [readWord] at h
  split at h
  case h_2 =>
    cases h
    exact isInteger_word
  case h_1 =>
    split at h
    case isFalse =>
      cases h
      exact isInteger_word
    case isTrue =>
      split at h
      case h_2 =>
        cases h
        exact isInteger_word
      case h_1 hl =>
        cases h
        exact isInteger_literal? hl

theorem isInteger_readSign (h : (readSign cs).fst = .token k) : k.isInteger = false := by
  have hs : ∀ s ∈ signs, s.snd.isInteger = false := by decide
  unfold readSign at h
  split at h
  case h_2 => cases h
  case h_1 hf =>
    cases h
    exact hs _ <| List.mem_of_find?_eq_some hf

-- Only numerals are read as integers.
theorem readNumeral_of_isInteger (h : read cs = (.token k, n)) (hi : k.isInteger) : readNumeral cs = (.token k, n) := by
  have hn : k.isInteger ≠ false := by simp [hi]
  revert h
  fun_cases read cs <;> intro h
  case case6 | case9  => exact h
  case case7 | case12 => exact (hn <| isInteger_readSign <| congrArg Prod.fst h).elim
  case case10         => exact (hn <| isInteger_readWord <| congrArg Prod.fst h).elim
  case case11 c cs _ _ _ _ _ _ _ _ _ _ =>
    cases hl : literal? [] c cs <;> rw [hl] at h
    case none => cases h
    case some =>
      cases h
      exact (hn <| isInteger_literal? hl).elim
  all_goals cases h

theorem exists_denotes_of_read (h : read cs = (.token k, n)) (hi : k.isInteger) : ∃ lead v, Denotes lead (cs.take n) v := by
  have hr := readNumeral_of_isInteger h hi
  simp only [readNumeral] at hr
  split at hr
  case h_2 => cases hr
  case h_1 hk =>
    cases hr
    exact Numeral.exists_denotes_of_measure hk hi

end Lexeme

-- A stretch of a text is given by its first byte and its length in bytes.

theorem append_inj_of_utf8Length (h : before ++ after = done ++ rest) (hn : utf8Length before = utf8Length done) :
    before = done ∧ after = rest := by
  have hb : takeBytes? (utf8Length before) (before ++ after) = some before := takeBytes?_append
  rw [h, hn, takeBytes?_append] at hb
  cases hb
  exact ⟨rfl, List.append_cancel_left h⟩

theorem stretch_inj (h : before ++ (inside ++ after) = done ++ (cs ++ rest))
    (hz : Span.between (utf8Length before) (utf8Length (before ++ inside)) = .between (utf8Length done) (utf8Length (done ++ cs))) :
    before = done ∧ inside = cs ∧ after = rest := by
  obtain ⟨rfl, hc⟩ := append_inj_of_utf8Length h (congrArg Span.start hz)
  have hl := congrArg Span.length hz
  rw [Span.between, Span.between, utf8Length_append, utf8Length_append, Nat.add_sub_cancel_left, Nat.add_sub_cancel_left] at hl
  exact ⟨rfl, append_inj_of_utf8Length hc hl⟩

-- No layout begins with a digit.
theorem Kind.Marks.not_isLayout (h : k.Marks before (c :: cs) after) (hc : c.isDigit) : ¬k.isLayout := by
  cases k
  case newline =>
    obtain (h | h) | ⟨h, -⟩ := h
    all_goals cases h
    all_goals cases hc
  case indent => exact (Lexeme.not_isBlank_of_isDigit hc <| h.right c (.head _)).elim
  case dedent =>
    obtain h | ⟨h, -⟩ := h
    case inl => exact (Lexeme.not_isBlank_of_isDigit hc <| h.right c (.head _)).elim
    case inr => cases h
  case eof => cases h.left
  all_goals nofun

theorem keepsValue_of_mem (h : tokenize text = .ok tokens) (ht : t ∈ tokens) (hz : StandsFor text inside t) (hd : Denotes lead inside v) :
    KeepsValue lead v t.kind := by
  obtain ⟨before, after, he, hz⟩ := hz
  obtain hk | ⟨_, c, cs, n, hp, hr, hs⟩ := exists_place_of_mem h ht
  case inl =>
    obtain ⟨_, _, _, hp, hm, hk'⟩ := (Layout.run_of_tokenize h).marked .initial t ht
    obtain ⟨rfl, rfl, rfl⟩ := stretch_inj (he.symm.trans hp) (hz.symm.trans hm)
    obtain ⟨c, cs, rfl, hc⟩ := hd.exists_cons
    exact (hk'.not_isLayout hc hk).elim
  case inr =>
    obtain ⟨rfl, rfl, rfl⟩ := stretch_inj (he.symm.trans hp) (hz.symm.trans hs)
    have hc : c :: cs = (c :: cs.take (n - 1)) ++ cs.drop (n - 1) := by simp
    rw [hc] at hr
    obtain ⟨⟨hn, hl⟩, hv⟩ := Lexeme.read_integer hd hr
    obtain hv | ⟨k, hk, hv⟩ := hv
    case inl => cases hv
    cases hk
    refine hv ?_
    simp only [List.length_append, List.length_cons, List.length_take, List.length_drop] at hn hl ⊢
    omega

-- An integer is read at a literal.
theorem exists_denotes_of_mem (h : tokenize text = .ok tokens) (ht : t ∈ tokens) (hi : t.kind.isInteger) :
    ∃ inside lead v, StandsFor text inside t ∧ Denotes lead inside v := by
  obtain hl | ⟨before, c, cs, n, he, hr, hs⟩ := exists_place_of_mem h ht
  case inl =>
    generalize t.kind = k at hi hl
    cases k
    case int | wideInt => cases hl
    all_goals cases hi
  case inr =>
    obtain ⟨lead, v, hd⟩ := Lexeme.exists_denotes_of_read hr hi
    cases n
    case zero =>
      obtain ⟨_, _, hn, -⟩ := hd.exists_cons
      cases hn
    case succ n => exact ⟨_, lead, v, ⟨before, _, he, hs⟩, hd⟩

theorem Layout.run_alone : run .initial [⟨.token k, text⟩] = .ok (alone k (utf8Length text)) := by
  change Except.ok (⟨k, .between 0 (0 + utf8Length text)⟩ :: finish ⟨0 + utf8Length text, [], _, true, []⟩) = _
  rw [Nat.zero_add]
  rfl

theorem tokenize_of_denotes (hd : Denotes lead text v) (h : tokenize text = .ok tokens) :
    ∃ k, KeepsValue lead v k ∧ tokens = alone k (utf8Length text) := by
  obtain ⟨c, cs, rfl, -⟩ := hd.exists_cons
  obtain ⟨p, n, hr⟩ : ∃ p n, Lexeme.read (c :: cs) = (p, n) := ⟨_, _, rfl⟩
  have hr' : Lexeme.read (c :: cs ++ []) = (p, n) := by rwa [List.append_nil]
  obtain ⟨⟨hn, hl⟩, hv⟩ := Lexeme.read_integer hd hr'
  rw [List.append_nil] at hl
  rw [tokenize, Lexeme.scan, hr] at h
  simp only at h
  split at h
  case isTrue hp =>
    obtain ⟨_, hs, -⟩ := exists_ok_of_bind h
    exact (Layout.step_not_last hs hp).elim
  case isFalse hp =>
    obtain ⟨k, hk, hv⟩ := hv.resolve_left hp
    obtain rfl := Nat.le_antisymm hl hn
    rw [hk, List.length_cons, Nat.add_sub_cancel, List.take_length, List.drop_length, Lexeme.scan, Layout.run_alone] at h
    cases h
    exact ⟨k, hv rfl, rfl⟩

-- Every text with tokens keeps its integers, however long they are.
theorem tokenize_keepsIntegers (h : tokenize text = .ok tokens) : KeepsIntegers text tokens where
  kept _ ht _ hz _ _ hd := keepsValue_of_mem h ht hz hd
  denoted _ ht hi       := exists_denotes_of_mem h ht hi
  single _ _ hd         := tokenize_of_denotes hd h

-- The greatest number of 64 bits, and the next one with a base.
def greatest : List Char :=
  "018446744073709551_615, 0X1_0000_0000_0000_0000".toList

theorem greatest_keepsIntegers : ∃ tokens, tokenize greatest = .ok tokens ∧
    tokens.map (·.kind) = [.int 18446744073709551615, .mark .comma, .wideInt "0X10000000000000000", .newline, .eof] ∧
    KeepsIntegers greatest tokens := by
  have ht : (tokenize greatest).toOption.bind (fun ts => some <| ts.map (·.kind)) =
      some [.int 18446744073709551615, .mark .comma, .wideInt "0X10000000000000000", .newline, .eof] := by decide +kernel
  obtain ⟨tokens, ht, hk⟩ := exists_ok_of_toOption ht
  exact ⟨tokens, ht, Option.some.inj hk, tokenize_keepsIntegers ht⟩

end PyVerify.Token
