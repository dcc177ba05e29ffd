import Mathlib.Logic.Basic
import PyVerify.Proofs.Code.Lexeme

namespace PyVerify.Code

-- The text of a number, which is read as one whatever stands behind it.
inductive IsNumber : List Char → Prop
  | intro (hd : c.isDigit) (hn : ∀ {rest}, Apart rest → Token.numeral (cs ++ rest) = cs.length) :
    IsNumber (c :: cs)

variable {c : Char} {cs rest : List Char}

namespace Token

theorem exponent_letter : ∀ c ∈ ['e', 'E', 'p', 'P'], isWordChar c ∧ ¬c.isDigit ∧ c ≠ '.' := by
  simp [isWordChar]

theorem numeral_apart (hr : Apart rest) : numeral rest = 0 := by
  have hc : ∀ c ∈ rest.head?, c ∉ ['e', 'E', 'p', 'P'] ∧ ¬isWordChar c ∧ c ≠ '.' :=
    fun c h => ⟨fun he => (hr c h).left (exponent_letter c he).left, hr c h⟩
  fun_cases numeral rest
  all_goals simp_all

theorem numeral_cons (hc : c.isDigit ∨ c = '.') : numeral (c :: cs) = numeral cs + 1 := by
  have he : c ∉ ['e', 'E', 'p', 'P'] := by
    intro h
    obtain ⟨_, hd, hp⟩ := exponent_letter c h
    exact hc.elim hd hp
  have hw : isWordChar c ∨ c = '.' := hc.imp_left fun h => by simp [isWordChar, Char.isAlphanum, h]
  cases cs
  case nil => simp [numeral, hw]
  case cons => simp [numeral, he, hw]

theorem numeral_append (h : ∀ c ∈ cs, c.isDigit ∨ c = '.') :
    numeral (cs ++ rest) = cs.length + numeral rest := by
  induction cs
  case nil => simp
  case cons c cs hi =>
    simp only [List.mem_cons, forall_eq_or_imp] at h
    rw [List.cons_append, numeral_cons h.left, hi h.right]
    simp
    omega

end Token

theorem IsNumber.lex_eq (h : IsNumber cs) (hr : Apart rest) :
    lex (cs ++ rest) = .literal (String.ofList cs) :: lex rest := by
  obtain @⟨cs, c, hd, hn⟩ := h
  have hq : c ≠ '"' := by rintro rfl; simp at hd
  have hb : c ≠ ' ' := by rintro rfl; simp at hd
  have hread : Token.read c (cs ++ rest) = (.literal (String.ofList (c :: cs)), cs.length + 1) := by
    simp [Token.read, hq, hd, hn hr]
  simpa using lex_of_read hb hread

theorem exists_digits (n : Nat) : ∃ c cs, n.repr.toList = c :: cs ∧ c.isDigit ∧ ∀ d ∈ cs, d.isDigit := by
  have hd : ∀ c ∈ n.repr.toList, c.isDigit := by
    rw [Nat.toList_repr]
    exact fun c h => Nat.isDigit_of_mem_toDigits (by decide) (by decide) h
  obtain ⟨c, cs, h⟩ := List.exists_cons_of_ne_nil (String.toList_eq_nil_iff.not.mpr <| Nat.repr_ne_empty (n := n))
  rw [h] at hd
  exact ⟨c, cs, h, hd c List.mem_cons_self, fun d hc => hd d <| List.mem_cons_of_mem _ hc⟩

theorem IsNumber.plain (hc : c.isDigit) (h : ∀ d ∈ cs, d.isDigit ∨ d = '.') : IsNumber (c :: cs) := by
  refine .intro hc fun hr => ?_
  simp [Token.numeral_append h, Token.numeral_apart hr]

theorem IsNumber.nat (n : Nat) : IsNumber (toString n).toList := by
  obtain ⟨c, cs, h, hc, hd⟩ := exists_digits n
  rw [Nat.toString_eq_repr, h]
  exact .plain hc fun d hm => .inl <| hd d hm

theorem lex_nat {n : Nat} (hr : Apart rest) :
    lex ((toString n).toList ++ rest) = .literal (toString n) :: lex rest := by
  rw [(IsNumber.nat n).lex_eq hr, String.ofList_toList]

-- An exponent starts with a digit or with a minus, behind which there are only digits.
theorem numeral_exponent {e : Int} (hr : Apart rest) :
    Token.numeral ('e' :: ((toString e).toList ++ rest)) = (toString e).toList.length + 1 := by
  have hn : ∀ {cs}, (∀ d ∈ cs, d.isDigit) → Token.numeral (cs ++ rest) = cs.length := by
    intro cs h
    rw [Token.numeral_append fun d hd => .inl <| h d hd, Token.numeral_apart hr, Nat.add_zero]
  rw [Int.toString_eq_repr, Int.repr_eq_if]
  split
  case isTrue =>
    obtain ⟨c, cs, h, hc, hd⟩ := exists_digits e.toNat
    have hs : c ≠ '+' ∧ c ≠ '-' := by constructor <;> rintro rfl <;> simp at hc
    have hw := hn fun d hm => (List.mem_cons.mp hm).elim (· ▸ hc) (hd d)
    rw [List.cons_append] at hw
    simp [h, Token.numeral, hs, hw, isWordChar]
  case isFalse =>
    obtain ⟨c, cs, h, hc, hd⟩ := exists_digits (-e).toNat
    have hw := hn fun d hm => (List.mem_cons.mp hm).elim (· ▸ hc) (hd d)
    rw [List.cons_append] at hw
    simp only [String.toList_append, String.reduceToList, h]
    simp [Token.numeral, hw]

theorem IsNumber.exponential {e : Int} (hc : c.isDigit) (h : ∀ d ∈ cs, d.isDigit ∨ d = '.') :
    IsNumber (c :: (cs ++ 'e' :: (toString e).toList)) := by
  refine .intro hc fun hr => ?_
  rw [List.append_assoc, Token.numeral_append h, List.cons_append, numeral_exponent hr]
  simp

theorem layout_eq (n : Decimal.Notation) (d : Decimal) : Decimal.layout n d =
    let ds := toString d.digits
    let len : Int := ds.length
    let lead := d.exponent + len - 1
    if n.plainFrom ≤ lead ∧ lead < n.plainBelow then
      if 0 ≤ d.exponent then ds ++ String.ofList (List.replicate d.exponent.toNat '0') ++ ".0"
      else if 0 ≤ lead then
        let whole := (lead + 1).toNat
        String.ofList (ds.toList.take whole) ++ "." ++ String.ofList (ds.toList.drop whole)
      else "0." ++ String.ofList (List.replicate (-lead - 1).toNat '0') ++ ds
    else
      let mantissa := match ds.toList with
        | [c] => String.ofList [c]
        | c :: cs => String.ofList (c :: '.' :: cs)
        | [] => ""
      mantissa ++ "e" ++ toString lead := rfl

theorem IsNumber.layout (n : Decimal.Notation) (d : Decimal) : IsNumber (Decimal.layout n d).toList := by
  obtain ⟨c, cs, h, hc, hd⟩ := exists_digits d.digits
  have hs : ∀ x ∈ cs, x.isDigit ∨ x = '.' := fun x hx => .inl <| hd x hx
  have hz {k} : ∀ x ∈ List.replicate k '0', x.isDigit ∨ x = '.' := by
    intro x hx
    rw [List.eq_of_mem_replicate hx]
    decide
  rw [layout_eq]
  simp only [Nat.toString_eq_repr, h]
  split
  case isTrue =>
    split
    case isTrue =>
      simp only [String.toList_append, String.toList_ofList, String.reduceToList, h, List.cons_append]
      exact .plain hc <| List.forall_mem_append.mpr ⟨List.forall_mem_append.mpr ⟨hs, hz⟩, by simp⟩
    case isFalse =>
      split
      case isTrue hl =>
        obtain ⟨k, hk⟩ := Int.eq_ofNat_of_zero_le hl
        simp only [hk, String.toList_append, String.toList_ofList, String.reduceToList,
          Int.toNat_natCast_add_one, List.take_succ_cons, List.drop_succ_cons, List.cons_append]
        refine .plain hc <| List.forall_mem_append.mpr ⟨List.forall_mem_append.mpr ⟨?_, by simp⟩, ?_⟩
        · exact fun x hx => hs x <| List.mem_of_mem_take hx
        · exact fun x hx => hs x <| List.mem_of_mem_drop hx
      case isFalse =>
        simp only [String.toList_append, String.toList_ofList, String.reduceToList, h, List.cons_append]
        refine .plain (by decide) <| List.forall_mem_cons.mpr ⟨by decide, ?_⟩
        exact List.forall_mem_append.mpr ⟨hz, List.forall_mem_cons.mpr ⟨.inl hc, hs⟩⟩
  case isFalse =>
    split
    case h_1 he =>
      obtain ⟨rfl, rfl⟩ := List.cons_eq_cons.mp he
      simpa using exponential hc hs
    case h_2 he =>
      obtain ⟨rfl, rfl⟩ := List.cons_eq_cons.mp he
      simpa using exponential hc <| List.forall_mem_cons.mpr ⟨.inr rfl, hs⟩
    case h_3 he => cases he

-- What stands for a number that is no decimal is a name.
def Token.ofFloat (x : Binary64) : Token :=
  let text := x.render Binary64.messageNotation
  if x.isNaN || x.isInfinite then .word text else .literal text

theorem render_spec {x : Binary64} (h : ¬x.isNegative) :
    if x.isNaN || x.isInfinite then isIdentifier (x.render Binary64.messageNotation)
    else IsNumber (x.render Binary64.messageNotation).toList := by
  simp only [Binary64.render, h]
  by_cases hn : x.isNaN
  case pos =>
    have hw : isIdentifier "NaN" := by decide
    simpa [hn] using hw
  case neg =>
    by_cases hi : x.isInfinite
    case pos =>
      have hw : isIdentifier "inf" := by decide
      simpa [hn, hi] using hw
    case neg =>
      by_cases hz : x.significand = 0
      case pos =>
        have hw : IsNumber ['0', '.', '0'] := .plain (by decide) (by simp)
        simpa [hn, hi, hz] using hw
      case neg => simpa [hn, hi, hz] using IsNumber.layout _ _

theorem lex_float {x : Binary64} (h : ¬x.isNegative) (hr : Apart rest) :
    lex ((x.render Binary64.messageNotation).toList ++ rest) = .ofFloat x :: lex rest := by
  have hs := render_spec h
  unfold Token.ofFloat
  split at hs
  case isTrue hi  => simpa [hi] using lex_word hs hr
  case isFalse hi => simpa [hi] using hs.lex_eq hr

-- Each backslash of a string's body has a character behind it.
def isEscaped : List Char → Bool
  | ['\\']         => false
  | '\\' :: _ :: cs => isEscaped cs
  | _ :: cs        => isEscaped cs
  | []             => true

theorem isEscaped_cons (h : c ≠ '\\') : isEscaped (c :: cs) = isEscaped cs := by
  cases cs <;> simp [isEscaped, h]

-- A character that is no backslash, from the cases before it.
theorem ne_backslash (hn : c = '\\' → cs = [] → False) (hb : ∀ d ds, c = '\\' → cs = d :: ds → False) :
    c ≠ '\\' := by
  rintro rfl
  cases cs
  case nil       => exact hn rfl rfl
  case cons d ds => exact hb d ds rfl rfl

theorem quotation?_literalBody (h : isEscaped cs) :
    Token.quotation? (literalBody cs ++ '"' :: rest) = some ((literalBody cs).length + 1) := by
  fun_induction literalBody cs
  case case7 c cs hn hb hq hl _ hi =>
    have hc := ne_backslash hn hb
    simp_all [isEscaped, Token.quotation?]
  all_goals simp_all [isEscaped, Token.quotation?]

theorem lex_str {body : String} (h : isEscaped body.toList) :
    lex ((Term.str body).text.toList ++ rest) = .literal (Term.str body).text :: lex rest := by
  have hq : Token.quotation? (literalBody body.toList ++ '"' :: rest) = _ := quotation?_literalBody h
  have hread : Token.read '"' (literalBody body.toList ++ '"' :: rest) =
      (.literal (Term.str body).text, (literalBody body.toList).length + 2) := by
    simp only [Token.read, if_true, hq, Prod.mk.injEq, Token.literal.injEq, and_true]
    exact String.toList_inj.mp <| by simp [Term.text, List.take_append, List.take_of_length_le]
  simpa [Term.text] using lex_of_read (by decide) hread

end PyVerify.Code
