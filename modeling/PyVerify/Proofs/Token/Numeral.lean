import PyVerify.Proofs.Token.Sealed

namespace PyVerify.Token

variable {c : Char} {cs ds : List Char} {n : Nat}

namespace Numeral

theorem isOf_newline {base : Nat} : (Digits.isOf base '\n' || '\n' == '_') = false := by
  unfold Digits.isOf
  split <;> rfl

theorem isOf_return {base : Nat} : (Digits.isOf base '\r' || '\r' == '_') = false := by
  unfold Digits.isOf
  split <;> rfl

theorem measureRadix?_append (h : Sealed cs ds) : measureRadix? (cs ++ ds) = measureRadix? cs := by
  obtain _ | ⟨a, _ | ⟨b, cs⟩⟩ := cs
  case nil =>
    cases ds
    case nil => rfl
    case cons d ds => obtain rfl | rfl := h.of_nil d rfl <;> rfl
  case cons.nil =>
    by_cases ha : a = '0'
    case neg => simp [measureRadix?, ha]
    case pos =>
      subst ha
      cases ds
      case nil => rfl
      case cons d ds => obtain rfl | rfl := (h.tail <| by decide).of_nil d rfl <;> rfl
  case cons.cons =>
    by_cases ha : a = '0'
    case neg => simp [measureRadix?, ha]
    case pos =>
      subst ha
      simp only [List.cons_append, measureRadix?]
      split
      case h_2 => rfl
      case h_1 hb =>
        have hs : Sealed cs ds := (h.tail <| by decide).tail <| by rintro rfl; cases hb
        rw [hs.takeWhile_append isOf_return isOf_newline]

theorem measureRadix?_le {base : Nat} (hm : measureRadix? cs = some (base, n)) : n ≤ cs.length := by
  unfold measureRadix? at hm
  split at hm
  case h_2 => cases hm
  case h_1 c cs =>
    split at hm
    case h_2 => cases hm
    case h_1 base _ =>
      have hl := (List.takeWhile_prefix (fun d => Digits.isOf base d || d == '_') (l := cs)).length_le
      simp only at hm
      split at hm
      all_goals cases hm
      simpa using hl

-- The point of a numeral and the digits behind it.
def fractionLength : List Char → Nat
  | '.' :: cs => 1 + (cs.takeWhile isDigitOrUnderscore).length
  | _         => 0

def signLength (cs : List Char) : Nat :=
  match cs.head? with
  | some '+' | some '-' => 1
  | _                   => 0

theorem inline_fractionLength : IsInline fractionLength := by
  refine .of_cons (· = '.') (fun _ => True) (by decide) (by decide) (fun _ => .rfl)
    (.takeWhile (q := isDigitOrUnderscore) rfl rfl) rfl fun c cs => ?_
  by_cases hc : c = '.' <;> simp [fractionLength, hc]

theorem inline_signLength : IsInline signLength := by
  refine .of_cons (fun c => c = '+' ∨ c = '-') (fun _ => True) (by decide) (by decide) (fun _ => .rfl)
    .zero rfl fun c cs => ?_
  simp only [signLength, List.head?_cons, and_true]
  split
  case h_1 hc | h_2 hc => cases hc; rfl
  case h_3 hp hm =>
    refine (if_neg ?_).symm
    rintro (rfl | rfl)
    · exact hp rfl
    · exact hm rfl

theorem exponentLength_cons (hc : c = 'e' ∨ c = 'E') : exponentLength (c :: cs) =
    if ((cs.drop (signLength cs)).takeWhile Char.isDigit).isEmpty then 0
    else 1 + signLength cs + ((cs.drop (signLength cs)).takeWhile Char.isDigit).length := by
  simp only [exponentLength, if_pos hc]
  rfl

-- Without a digit behind it the letter does not begin an exponent.
theorem inline_exponentLength : IsInline exponentLength := by
  have hd : IsInline fun cs : List Char => (cs.takeWhile Char.isDigit).length := .takeWhile rfl rfl
  refine .of_cons (fun c => c = 'e' ∨ c = 'E')
    (fun cs => ((cs.drop (signLength cs)).takeWhile Char.isDigit).isEmpty = false)
    (by decide) (by decide) (fun h => ?_) (inline_signLength.add hd) rfl fun c cs => ?_
  case refine_1 =>
    rw [inline_signLength.append h, inline_signLength.drop_append, (h.imp inline_signLength.drop).takeWhile_append rfl rfl]
  case refine_2 =>
    by_cases hc : c = 'e' ∨ c = 'E'
    case neg => simp [exponentLength, hc]
    case pos =>
      rw [exponentLength_cons hc]
      split
      case isTrue he   => simp [he]
      case isFalse he  => simp [hc, he, Nat.add_assoc]

-- A decimal numeral is digits, a fraction and an exponent.

def wholeLength (cs : List Char) : Nat :=
  (cs.takeWhile isDigitOrUnderscore).length

def partLength (cs : List Char) : Nat :=
  fractionLength cs + exponentLength (cs.drop (fractionLength cs))

def decimalLength (cs : List Char) : Nat :=
  wholeLength cs + partLength (cs.drop (wholeLength cs))

theorem inline_wholeLength : IsInline wholeLength :=
  .takeWhile rfl rfl

theorem inline_partLength : IsInline partLength :=
  inline_fractionLength.add inline_exponentLength

theorem inline_decimalLength : IsInline decimalLength :=
  inline_wholeLength.add inline_partLength

-- A number in base ten with what stands behind its digits.
def ending (form : Form) (length : Nat) : List Char → Form × Nat
  | 'j' :: _ | 'J' :: _ => (.imaginary, length + 1)
  | _                   => (form, length)

theorem measure_of_none (h : measureRadix? cs = none) : measure cs =
    if (cs.drop (decimalLength cs)).head? = some 'j' ∨ (cs.drop (decimalLength cs)).head? = some 'J' then
      (.imaginary, decimalLength cs + 1)
    else (if partLength (cs.drop (wholeLength cs)) = 0 then .decimal else .float, decimalLength cs) := by
  have hm : measure cs = ending (if partLength (cs.drop (wholeLength cs)) = 0 then .decimal else .float)
      (decimalLength cs) (cs.drop (decimalLength cs)) := by
    have hd : cs.drop (decimalLength cs) = (cs.drop (wholeLength cs)).drop (partLength (cs.drop (wholeLength cs))) := List.drop_drop.symm
    have hs : decimalLength cs = wholeLength cs + fractionLength (cs.drop (wholeLength cs)) +
        exponentLength ((cs.drop (wholeLength cs)).drop (fractionLength (cs.drop (wholeLength cs)))) := (Nat.add_assoc ..).symm
    rw [hd, hs]
    simp only [measure, h]
    rfl
  rw [hm]
  unfold ending
  split
  case h_1 he | h_2 he => simp [he]
  case h_3 hj hJ =>
    refine (if_neg ?_).symm
    rintro (hh | hh) <;> obtain ⟨t, ht⟩ := List.head?_eq_some_iff.mp hh
    · exact hj t ht
    · exact hJ t ht

theorem measure_append (h : Sealed cs ds) : measure (cs ++ ds) = measure cs := by
  cases hm : measureRadix? cs
  case some => simp only [measure, measureRadix?_append h, hm]
  case none =>
    have hd := h.imp inline_decimalLength.drop
    rw [measure_of_none hm, measure_of_none <| (measureRadix?_append h).trans hm, inline_decimalLength.append h, inline_decimalLength.drop_append,
      inline_wholeLength.append h, inline_wholeLength.drop_append, inline_partLength.append <| h.imp inline_wholeLength.drop]
    simp only [hd.head?_append (c := 'j') (by decide) (by decide), hd.head?_append (c := 'J') (by decide) (by decide)]

theorem measure_le : (measure cs).snd ≤ cs.length := by
  cases hm : measureRadix? cs
  case some r =>
    simp only [measure, hm]
    exact measureRadix?_le hm
  case none =>
    have hd := inline_decimalLength.le cs
    rw [measure_of_none hm]
    split
    case isFalse => exact hd
    case isTrue hj =>
      have hn : cs.drop (decimalLength cs) ≠ [] := by
        intro he
        simp [he] at hj
      have hl := List.length_pos_iff.mpr hn
      rw [List.length_drop] at hl
      simp only
      omega

end Numeral

end PyVerify.Token
