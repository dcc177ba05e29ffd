import Mathlib.Data.List.Forall2
import Mathlib.Data.Nat.Digits.Defs
import PyVerify.Proofs.Token.Numeral
import PyVerify.Proofs.Token.Piece

namespace PyVerify.Token

namespace Numeral

-- The digits and what they stand for.
def digits : List (Char × Nat) := [
  ('0', 0), ('1', 1), ('2', 2), ('3', 3), ('4', 4), ('5', 5), ('6', 6), ('7', 7), ('8', 8), ('9', 9),
  ('a', 10), ('b', 11), ('c', 12), ('d', 13), ('e', 14), ('f', 15),
  ('A', 10), ('B', 11), ('C', 12), ('D', 13), ('E', 14), ('F', 15)]

-- What stands in front of the digits in a base.
inductive Lead : Nat → List Char → Prop
  | decimal                               : Lead 10 []
  | binary (h : c = 'b' ∨ c = 'B')        : Lead 2 ['0', c]
  | octal (h : c = 'o' ∨ c = 'O')         : Lead 8 ['0', c]
  | hexadecimal (h : c = 'x' ∨ c = 'X')   : Lead 16 ['0', c]

-- These are the digits of a number in a base, the most significant first.
def Spells (base : Nat) (cs : List Char) (v : Nat) : Prop :=
  ∃ ds, ds ≠ [] ∧ List.Forall₂ (fun c d => (c, d) ∈ digits ∧ d < base) cs ds ∧ v = Nat.ofDigits base ds.reverse

-- An integer literal stands for the number that its digits spell, wherever there are underscores among them.
def Denotes (lead text : List Char) (v : Nat) : Prop :=
  ∃ base body, text = lead ++ body ∧ Lead base lead ∧ (lead = [] → body.head? ≠ some '_') ∧
    Spells base (body.filter (· ≠ '_')) v

-- The value is kept as a number if it has 64 bits, and otherwise as a text that denotes it.
structure KeepsValue (lead : List Char) (v : Nat) (k : Kind) : Prop where
  narrow  : v < 2 ^ 64 → k = .int v
  wide    : 2 ^ 64 ≤ v → ∃ w, k = .wideInt w ∧ '_' ∉ w.toList ∧ Denotes lead w.toList v

end Numeral

-- The tokens that an integer is kept in.
def Kind.isInteger : Kind → Bool
  | int _ | wideInt _ => true
  | _                 => false

variable {base n v : Nat} {c : Char} {cs lead body text after : List Char} {k : Kind}

namespace Numeral

-- The digits of the bases.

theorem value_of_mem : ∀ p ∈ digits, Digits.value p.fst = p.snd := by
  decide

theorem mem_digits_of_lt : ∀ n < 128, Digits.isOf 16 (Char.ofNat n) → (Char.ofNat n, Digits.value (Char.ofNat n)) ∈ digits := by
  decide

theorem isOf_ascii (h : Digits.isOf 16 c) : c.toNat < 128 := by
  have hl {d : Char} (hd : c ≤ d) (hn : d.toNat < 128) : c.toNat < 128 := Nat.lt_of_le_of_lt hd hn
  simp only [Digits.isOf, if_pos, Bool.or_eq_true, Bool.and_eq_true, decide_eq_true_eq] at h
  obtain (h | ⟨-, h⟩) | ⟨-, h⟩ := h
  · simp only [Char.isDigit, Bool.and_eq_true, decide_eq_true_eq] at h
    exact hl (d := '9') h.right (by decide)
  · exact hl h (by decide)
  · exact hl h (by decide)

theorem mem_digits (h : Digits.isOf 16 c) : (c, Digits.value c) ∈ digits := by
  have hd := mem_digits_of_lt c.toNat (isOf_ascii h)
  rw [Char.ofNat_toNat] at hd
  exact hd h

theorem isDigit_iff : c.isDigit ↔ ∃ d < 10, (c, d) ∈ digits := by
  have hd : ∀ p ∈ digits, p.fst.isDigit ↔ p.snd < 10 := by decide
  constructor
  case mp =>
    intro h
    have hm : (c, Digits.value c) ∈ digits := mem_digits (by simp [Digits.isOf, h])
    exact ⟨_, (hd _ hm).mp h, hm⟩
  case mpr =>
    rintro ⟨d, hn, hm⟩
    exact (hd _ hm).mpr hn

theorem isOf_iff (hb : base ∈ [2, 8, 16]) : Digits.isOf base c ↔ ∃ d < base, (c, d) ∈ digits := by
  have hd : ∀ base ∈ [2, 8, 16], ∀ p ∈ digits, Digits.isOf base p.fst ↔ p.snd < base := by decide
  constructor
  case mp =>
    intro h
    have hm : (c, Digits.value c) ∈ digits := by
      by_cases hs : base = 16
      case pos => exact mem_digits (hs ▸ h)
      case neg =>
        simp only [Digits.isOf, if_neg hs, Bool.and_eq_true] at h
        exact mem_digits (by simp [Digits.isOf, h.left])
    exact ⟨_, (hd base hb _ hm).mp h, hm⟩
  case mpr =>
    rintro ⟨d, hn, hm⟩
    exact (hd base hb _ hm).mpr hn

theorem toNat_eq (h : Spells base text v) : Digits.toNat base text = v := by
  obtain ⟨ds, -, hf, rfl⟩ := h
  rw [Nat.ofDigits_eq_foldr, List.foldr_reverse, Digits.toNat]
  generalize 0 = n
  induction hf generalizing n
  case nil => rfl
  case cons hd _ hi =>
    rw [List.foldl_cons, List.foldl_cons, value_of_mem _ hd.left, hi, Nat.cast_id, Nat.mul_comm, Nat.add_comm]

theorem Spells.mem (h : Spells base text v) (hc : c ∈ text) : ∃ d < base, (c, d) ∈ digits := by
  obtain ⟨ds, -, hf, -⟩ := h
  induction hf
  case nil => cases hc
  case cons hd _ hi =>
    cases hc
    case head     => exact ⟨_, hd.right, hd.left⟩
    case tail hc  => exact hi hc

theorem exists_spells (hn : text ≠ []) (h : ∀ c ∈ text, ∃ d < base, (c, d) ∈ digits) : ∃ v, Spells base text v := by
  refine ⟨_, text.map Digits.value, by simpa using hn, ?_, rfl⟩
  rw [List.forall₂_map_right_iff, List.forall₂_same]
  intro c hc
  obtain ⟨d, hd, hm⟩ := h c hc
  rw [value_of_mem _ hm]
  exact ⟨hm, hd⟩

-- The characters of an integer literal behind its lead.
theorem eq_underscore_or_mem (h : Spells base (body.filter (· ≠ '_')) v) (hc : c ∈ body) : c = '_' ∨ ∃ d < base, (c, d) ∈ digits := by
  by_cases hu : c = '_'
  case pos => exact .inl hu
  case neg => exact .inr <| h.mem <| List.mem_filter.mpr ⟨hc, by simpa using hu⟩

theorem ne_nil_of_spells (h : Spells base (body.filter (· ≠ '_')) v) : body ≠ [] := by
  rintro rfl
  obtain ⟨ds, hn, hf, -⟩ := h
  cases hf
  exact hn rfl

-- A lead tells its base.

theorem lead_of_baseOf? (h : baseOf? c = some base) : Lead base ['0', c] := by
  unfold baseOf? at h
  split at h
  case isTrue hc =>
    cases h
    exact .binary hc
  split at h
  case isTrue hc =>
    cases h
    exact .octal hc
  split at h
  case isTrue hc =>
    cases h
    exact .hexadecimal hc
  case isFalse => cases h

theorem Lead.eq_nil_or (h : Lead base lead) :
    base = 10 ∧ lead = [] ∨ ∃ c, lead = ['0', c] ∧ baseOf? c = some base ∧ base ∈ [2, 8, 16] := by
  cases h
  case decimal => exact .inl ⟨rfl, rfl⟩
  case binary hc | octal hc | hexadecimal hc => obtain rfl | rfl := hc <;> exact .inr ⟨_, rfl, rfl, by decide⟩

theorem Lead.base_mem (h : Lead base ['0', c]) : base ∈ [2, 8, 16] := by
  cases h <;> decide

theorem Lead.underscore_not_mem (h : Lead base lead) : '_' ∉ lead := by
  cases h
  case decimal => nofun
  case binary hc | octal hc | hexadecimal hc => obtain rfl | rfl := hc <;> decide

-- The token of a literal.

theorem keepsValue_integer (hl : Lead base lead) (h : Spells base (body.filter (· ≠ '_')) v) :
    KeepsValue lead v (integer base lead (body.filter (· ≠ '_'))) := by
  unfold integer
  rw [toNat_eq h]
  constructor
  case narrow => exact fun hv => if_pos hv
  case wide =>
    intro hv
    refine ⟨_, if_neg (Nat.not_lt.mpr hv), ?_, ?_⟩
    case refine_1 => simpa using hl.underscore_not_mem
    case refine_2 =>
      refine ⟨base, body.filter (· ≠ '_'), by simp, hl, fun _ hh => ?_, by simpa using h⟩
      simpa using List.mem_of_mem_head? hh

theorem filter_dropWhile_underscore : (cs.dropWhile (· = '_')).filter (· ≠ '_') = cs.filter (· ≠ '_') := by
  induction cs
  case nil => rfl
  case cons c cs hi =>
    by_cases hc : c = '_'
    case pos => simpa [hc] using hi
    case neg => simp [hc]

-- What form a literal has.
def Form.ofBase (base : Nat) : Form :=
  if base = 10 then .decimal else .radix base

theorem Form.ofBase_radix (h : base ∈ [2, 8, 16]) : ofBase base = .radix base :=
  if_neg <| by
    rintro rfl
    exact absurd h (by decide)

theorem keepsValue_of_kind? (hl : Lead base lead) (h : Spells base (body.filter (· ≠ '_')) v)
    (hk : kind? (.ofBase base) (lead ++ body) = some k) : KeepsValue lead v k := by
  have hi := keepsValue_integer hl h
  cases hl
  case decimal =>
    change (if _ then some (integer 10 [] (body.filter (· ≠ '_'))) else none) = _ at hk
    split at hk <;> cases hk
    exact hi
  case binary | octal | hexadecimal =>
    change (if _ then some (integer _ [_, _] ((body.dropWhile (· = '_')).filter (· ≠ '_'))) else none) = _ at hk
    rw [filter_dropWhile_underscore] at hk
    split at hk <;> cases hk
    exact hi

theorem exists_cons_of_wellSeparated (h : Digits.wellSeparated cs) : ∃ c ds, cs = c :: ds ∧ c ≠ '_' := by
  obtain _ | ⟨c, ds⟩ := cs
  case nil => cases h
  case cons =>
    refine ⟨c, ds, rfl, ?_⟩
    rintro rfl
    cases ds <;> cases h

theorem exists_denotes_of_kind? (hl : Lead base lead) (hb : ∀ c ∈ body, c = '_' ∨ ∃ d < base, (c, d) ∈ digits)
    (hk : kind? (.ofBase base) (lead ++ body) = some k) : ∃ v, Denotes lead (lead ++ body) v := by
  obtain ⟨hu, hf⟩ : (lead = [] → body.head? ≠ some '_') ∧ body.filter (· ≠ '_') ≠ [] := by
    cases hl
    case decimal =>
      change (if _ then _ else none) = _ at hk
      split at hk
      case isFalse => cases hk
      case isTrue hw =>
        obtain ⟨c, ds, rfl, hc⟩ := exists_cons_of_wellSeparated hw
        exact ⟨fun _ => by simpa using hc, by simp [hc]⟩
    case binary | octal | hexadecimal =>
      refine ⟨nofun, ?_⟩
      change (if _ then _ else none) = _ at hk
      split at hk
      case isFalse => cases hk
      case isTrue hw =>
        obtain ⟨c, ds, he, hc⟩ := exists_cons_of_wellSeparated hw
        change body.dropWhile (· = '_') = _ at he
        rw [← filter_dropWhile_underscore, he]
        simp [hc]
  obtain ⟨v, hs⟩ := exists_spells hf fun c hc => by
    have hm := List.mem_filter.mp hc
    exact (hb c hm.left).resolve_left (by simpa using hm.right)
  exact ⟨v, base, body, rfl, hl, hu, hs⟩

-- The longest numeral at the beginning of a text that an integer literal begins.

theorem length_le_takeWhile (after : List Char) {q : Char → Bool} (h : ∀ c ∈ body, q c) :
    body.length ≤ ((body ++ after).takeWhile q).length := by
  rw [List.takeWhile_append_of_pos h, List.length_append]
  exact Nat.le_add_right ..

theorem measure_radix (after : List Char) (hb : baseOf? c = some base) (hm : base ∈ [2, 8, 16]) (h : Spells base (body.filter (· ≠ '_')) v) :
    (measure ('0' :: c :: (body ++ after))).fst = .radix base ∧ body.length + 2 ≤ (measure ('0' :: c :: (body ++ after))).snd := by
  have hq : ∀ d ∈ body, Digits.isOf base d || d == '_' := by
    intro d hd
    obtain rfl | hd := eq_underscore_or_mem h hd
    case inl => simp
    case inr => simp [(isOf_iff hm).mpr hd]
  have hl : body.length ≤ _ := length_le_takeWhile after hq
  have hn : ¬((body ++ after).takeWhile fun d => Digits.isOf base d || d == '_').isEmpty := by
    rw [List.isEmpty_iff_length_eq_zero]
    have hp := List.length_pos_iff.mpr (ne_nil_of_spells h)
    omega
  simp only [measure, measureRadix?, hb, if_neg hn, true_and]
  exact Nat.add_le_add_right hl 2

theorem measureRadix?_inv (h : measureRadix? cs = some (base, n)) : ∃ c ds, cs = '0' :: c :: ds ∧ baseOf? c = some base ∧
    ds.takeWhile (fun d => Digits.isOf base d || d == '_') ≠ [] ∧ n = (ds.takeWhile fun d => Digits.isOf base d || d == '_').length + 2 := by
  unfold measureRadix? at h
  split at h
  case h_2 => cases h
  case h_1 c ds =>
    split at h
    case h_2 => cases h
    case h_1 hb =>
      simp only at h
      split at h
      all_goals cases h
      case isFalse he => exact ⟨c, ds, rfl, hb, mt List.isEmpty_iff.mpr he, rfl⟩

theorem baseOf?_of_digit (h : isDigitOrUnderscore c) : baseOf? c = none := by
  have hn {d : Char} (hd : isDigitOrUnderscore d = false) : c ≠ d := by
    rintro rfl
    simp [h] at hd
  unfold baseOf?
  rw [if_neg (not_or.mpr ⟨hn rfl, hn rfl⟩), if_neg (not_or.mpr ⟨hn rfl, hn rfl⟩), if_neg (not_or.mpr ⟨hn rfl, hn rfl⟩)]

theorem measure_decimal (after : List Char) (h : Spells 10 (body.filter (· ≠ '_')) v) :
    body.length ≤ (measure (body ++ after)).snd ∧
      ((measure (body ++ after)).snd = body.length → (measure (body ++ after)).fst = .decimal) := by
  have hq : ∀ d ∈ body, isDigitOrUnderscore d := by
    intro d hd
    obtain rfl | hd := eq_underscore_or_mem h hd
    case inl => rfl
    case inr => simp [isDigitOrUnderscore, isDigit_iff.mpr hd]
  have hw : body.length ≤ wholeLength (body ++ after) := length_le_takeWhile after hq
  have hd : wholeLength (body ++ after) ≤ decimalLength (body ++ after) := Nat.le_add_right ..
  cases hm : measureRadix? (body ++ after)
  case none =>
    rw [measure_of_none hm]
    split
    case isTrue =>
      simp only
      exact ⟨by omega, fun _ => by omega⟩
    case isFalse =>
      refine ⟨hw.trans hd, fun hl => if_pos ?_⟩
      simp only [decimalLength] at hl
      omega
  case some r =>
    -- The letter of a base is behind the digits.
    obtain ⟨base, n⟩ := r
    obtain ⟨c, ds, he, hb, hd, rfl⟩ := measureRadix?_inv hm
    have hn := List.length_pos_iff.mpr hd
    have hl : body.length ≤ 1 := by
      obtain _ | ⟨a, _ | ⟨b, body⟩⟩ := body
      case nil | cons.nil => simp
      case cons.cons =>
        obtain ⟨-, he⟩ := List.cons.inj he
        obtain ⟨rfl, -⟩ := List.cons.inj he
        rw [baseOf?_of_digit <| hq b (by simp)] at hb
        cases hb
    simp only [measure, hm]
    exact ⟨by omega, fun hn => by omega⟩

theorem measure_of_denotes (after : List Char) (h : Denotes lead text v) : text.length ≤ (measure (text ++ after)).snd ∧
    ((measure (text ++ after)).snd = text.length → ∀ k, kind? (measure (text ++ after)).fst text = some k → KeepsValue lead v k) := by
  obtain ⟨base, body, rfl, hl, -, hs⟩ := h
  have hv {k : Kind} : kind? (.ofBase base) (lead ++ body) = some k → KeepsValue lead v k := keepsValue_of_kind? hl hs
  obtain ⟨rfl, rfl⟩ | ⟨c, rfl, hb, hm⟩ := hl.eq_nil_or
  case inl =>
    obtain ⟨hn, hf⟩ := measure_decimal after hs
    exact ⟨hn, fun he k hk => hv <| (congrArg (kind? · body) (hf he)).symm.trans hk⟩
  case inr =>
    obtain ⟨hf, hn⟩ := measure_radix after hb hm hs
    rw [Form.ofBase_radix hm, ← hf] at hv
    exact ⟨hn, fun _ _ => hv⟩

theorem Denotes.exists_cons (h : Denotes lead text v) : ∃ c cs, text = c :: cs ∧ c.isDigit := by
  obtain ⟨base, body, rfl, hl, hn, hs⟩ := h
  cases hl
  case binary | octal | hexadecimal => exact ⟨_, _, rfl, rfl⟩
  case decimal =>
    obtain ⟨c, cs, rfl⟩ := List.exists_cons_of_ne_nil (ne_nil_of_spells hs)
    obtain rfl | hc := eq_underscore_or_mem hs (.head _)
    case inl => exact (hn rfl rfl).elim
    case inr => exact ⟨c, cs, rfl, isDigit_iff.mpr hc⟩

theorem exists_denotes_of_measure (hk : kind? (measure cs).fst (cs.take (measure cs).snd) = some k) (hi : k.isInteger) :
    ∃ lead v, Denotes lead (cs.take (measure cs).snd) v := by
  cases hm : measureRadix? cs
  case some r =>
    obtain ⟨base, n⟩ := r
    obtain ⟨c, ds, rfl, hb, -, rfl⟩ := measureRadix?_inv hm
    have hl := lead_of_baseOf? hb
    simp only [measure, hm, List.take_succ_cons, Lexeme.take_length_takeWhile] at hk ⊢
    rw [← Form.ofBase_radix hl.base_mem] at hk
    refine ⟨['0', c], exists_denotes_of_kind? hl (fun d hd => ?_) hk⟩
    have hq := List.all_eq_true.mp List.all_takeWhile d hd
    simp only [Bool.or_eq_true, beq_iff_eq] at hq
    exact hq.symm.imp_right (isOf_iff hl.base_mem).mp
  case none =>
    rw [measure_of_none hm] at hk ⊢
    split at hk
    case isTrue =>
      cases hk
      cases hi
    case isFalse hj =>
      rw [if_neg hj]
      split at hk
      case isFalse =>
        cases hk
        cases hi
      case isTrue hp =>
        have ht : cs.take (decimalLength cs) = cs.takeWhile isDigitOrUnderscore := by
          rw [decimalLength, hp, Nat.add_zero, wholeLength, Lexeme.take_length_takeWhile]
        simp only [ht] at hk ⊢
        refine ⟨[], exists_denotes_of_kind? .decimal (fun d hd => ?_) hk⟩
        have hq := List.all_eq_true.mp List.all_takeWhile d hd
        simp only [isDigitOrUnderscore, Bool.or_eq_true, beq_iff_eq] at hq
        exact hq.symm.imp_right isDigit_iff.mp

end Numeral
end PyVerify.Token
