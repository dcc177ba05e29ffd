import Mathlib.Data.List.Infix
import PyVerify.Proofs.Token.Integer

namespace PyVerify.Token

namespace Numeral

def IsDigit (base : Nat) (c : Char) : Prop :=
  ∃ v < base, (c, v) ∈ digits

instance {base : Nat} {c : Char} : Decidable (IsDigit base c) :=
  inferInstanceAs <| Decidable (∃ v < base, (c, v) ∈ digits)

-- The patterns of numerals.

-- `[0-9][0-9_]*`
def IsWhole (cs : List Char) : Prop :=
  ∃ c ds, cs = c :: ds ∧ c.isDigit ∧ ∀ d ∈ ds, isDigitOrUnderscore d

-- `([eE][+-]?[0-9]+)?`
inductive IsExponent : List Char → Prop
  | none : IsExponent []
  | some (he : e = 'e' ∨ e = 'E') (hs : sign = [] ∨ sign = ['+'] ∨ sign = ['-']) (hn : ds ≠ []) (hd : ∀ d ∈ ds, d.isDigit) :
      IsExponent (e :: (sign ++ ds))

-- `[0-9][0-9_]*`, `[0-9][0-9_]*\.[0-9_]*([eE][+-]?[0-9]+)?`, `\.[0-9][0-9_]*([eE][+-]?[0-9]+)?` and `[0-9][0-9_]*[eE][+-]?[0-9]+`
inductive MatchesReal : Form → List Char → Prop
  | whole (h : IsWhole ds) : MatchesReal .decimal ds
  | fraction (h : IsWhole ds) (hf : ∀ d ∈ fs, isDigitOrUnderscore d) (he : IsExponent e) : MatchesReal .float (ds ++ ('.' :: fs ++ e))
  | point (h : IsWhole fs) (he : IsExponent e) : MatchesReal .float ('.' :: fs ++ e)
  | exponent (h : IsWhole ds) (he : IsExponent e) (hn : e ≠ []) : MatchesReal .float (ds ++ e)

-- Also `0[bB][01_]+`, `0[oO][0-7_]+`, `0[xX][0-9a-fA-F_]+`, and a real number with `[jJ]` behind it.
inductive Matches : Form → List Char → Prop
  | real (h : MatchesReal form cs) : Matches form cs
  | radix (hl : Lead base ['0', c]) (hn : ds ≠ []) (hd : ∀ d ∈ ds, d = '_' ∨ IsDigit base d) : Matches (.radix base) ('0' :: c :: ds)
  | imaginary (h : MatchesReal form cs) (hj : j = 'j' ∨ j = 'J') : Matches .imaginary (cs ++ [j])

-- The base that the digits of a numeral belong to.
def Form.base : Form → Nat
  | .radix base => base
  | _           => 10

-- Each underscore stands alone between two digits, or alone between the letter of a base and the first digit.
def Separated (form : Form) (text : List Char) : Prop :=
  ∀ before after, text = before ++ '_' :: after →
    ((∃ c ∈ before.getLast?, IsDigit form.base c) ∨ before ≠ [] ∧ Lead form.base before) ∧ ∃ c ∈ after.head?, IsDigit form.base c

-- A numeral with a base in which the underscores behind the letter are one underscore.
def joined : List Char → List Char
  | zero :: c :: ds => zero :: c :: '_' :: ds.dropWhile (· = '_')
  | cs              => cs

end Numeral

open Numeral (Form Matches Separated joined kind?)

def Lexes (text : List Char) : Prop :=
  ∃ tokens, tokenize text = .ok tokens

-- The underscores of a real number are never looked at, nor is how many there are in front of the digits of a base.
structure Underscored (form : Form) (text : List Char) : Prop where
  decimal   : form = .decimal → (Lexes text ↔ Separated form text)
  radix     : ∀ base, form = .radix base → (Lexes text ↔ Separated form (joined text))
  real      : form = .float ∨ form = .imaginary → Lexes text
  separated : Separated form text → Lexes text
  single    : Lexes text → ∃ k, kind? form text = some k ∧ tokenize text = .ok (alone k (utf8Length text))
  rejected  : ¬Lexes text → tokenize text = .error (.error ⟨.invalidInteger, .between 0 (utf8Length text)⟩)

variable {base : Nat} {c : Char} {cs ds fs e tail text : List Char} {form : Form}

namespace Numeral

-- Where underscores may stand among digits.

theorem wellSeparated_iff : Digits.wellSeparated cs ↔
    cs ≠ [] ∧ cs.head? ≠ some '_' ∧ cs.getLast? ≠ some '_' ∧ ¬['_', '_'] <:+: cs := by
  fun_induction Digits.wellSeparated cs
  case case1 => simp
  case case2 => simp [List.infix_cons_iff]
  case case3 => simp
  case case4 => simp [List.infix_cons_iff]
  case case5 c ds hc hn hi =>
    rw [hi]
    cases ds
    case nil => simp
    case cons d ds =>
      have hd : d ≠ '_' := fun h => hn ds (h ▸ rfl)
      have hc : c ≠ '_' := hc
      simp [List.infix_cons_iff, hc, hd, hc.symm, hd.symm]
  case case6 c ds hn hc hs hu hi =>
    rw [hi]
    cases ds
    case nil => exact (hn rfl).elim
    case cons d ds =>
      have hd : d ≠ '_' := fun h => hu ds (h ▸ rfl)
      have hc : c ≠ '_' := hc
      simp [List.infix_cons_iff, hc, hd, hc.symm, hd.symm]

theorem not_isDigit_underscore : ¬IsDigit base '_' := by
  rintro ⟨v, -, hv⟩
  revert hv
  simp [digits]

-- Digits are well separated if each underscore has a digit on both sides.
theorem wellSeparated_iff_between (hn : cs ≠ []) (hd : ∀ c ∈ cs, c = '_' ∨ IsDigit base c) : Digits.wellSeparated cs ↔
    ∀ before after, cs = before ++ '_' :: after → (∃ c ∈ before.getLast?, IsDigit base c) ∧ ∃ c ∈ after.head?, IsDigit base c := by
  rw [wellSeparated_iff]
  constructor
  case mp =>
    rintro ⟨-, hh, hl, hi⟩ before after rfl
    constructor
    case left =>
      obtain rfl | ⟨before, c, rfl⟩ := before.eq_nil_or_concat
      case inl => exact (hh rfl).elim
      case inr =>
        refine ⟨c, by simp, (hd c <| by simp).resolve_left ?_⟩
        rintro rfl
        exact hi ⟨before, after, by simp⟩
    case right =>
      cases after
      case nil => exact (hl <| by simp).elim
      case cons c after =>
        refine ⟨c, rfl, (hd c <| by simp).resolve_left ?_⟩
        rintro rfl
        exact hi ⟨before, after, by simp⟩
  case mpr =>
    intro h
    refine ⟨hn, fun hh => ?_, fun hl => ?_, ?_⟩
    case refine_1 =>
      obtain ⟨ds, rfl⟩ := List.head?_eq_some_iff.mp hh
      obtain ⟨⟨_, hc, -⟩, -⟩ := h [] ds rfl
      cases hc
    case refine_2 =>
      obtain ⟨ds, rfl⟩ := List.getLast?_eq_some_iff.mp hl
      obtain ⟨-, _, hc, -⟩ := h ds [] rfl
      cases hc
    case refine_3 =>
      rintro ⟨before, after, rfl⟩
      obtain ⟨-, _, hc, hd⟩ := h before ('_' :: after) (by simp)
      cases hc
      exact not_isDigit_underscore hd

theorem IsWhole.ne_nil (h : IsWhole cs) : cs ≠ [] := by
  obtain ⟨c, ds, rfl, -⟩ := h
  nofun

theorem IsWhole.all (h : IsWhole cs) : ∀ c ∈ cs, isDigitOrUnderscore c := by
  obtain ⟨c, ds, rfl, hc, hd⟩ := h
  refine List.forall_mem_cons.mpr ⟨?_, hd⟩
  simp [isDigitOrUnderscore, hc]

theorem wellSeparated_iff_separated (h : IsWhole cs) : Digits.wellSeparated cs ↔ Separated .decimal cs := by
  have hd : ∀ c ∈ cs, c = '_' ∨ IsDigit 10 c := by
    intro c hc
    have hc : c.isDigit ∨ c = '_' := by simpa [isDigitOrUnderscore] using h.all c hc
    exact hc.symm.imp_right isDigit_iff.mp
  have hl {before} : ¬(before ≠ [] ∧ Lead 10 before) := by
    rintro ⟨hn, hl⟩
    cases hl
    exact hn rfl
  rw [wellSeparated_iff_between h.ne_nil hd, Separated]
  simp only [Form.base, hl, or_false]

-- An underscore in front of the digits of a base is no part of them.

theorem head_of_separated (cs : List Char) (h : Separated form (cs ++ '_' :: ds)) : ds ≠ [] ∧ ds.head? ≠ some '_' := by
  obtain ⟨-, c, hc, hd⟩ := h cs ds rfl
  obtain ⟨ds, rfl⟩ := List.head?_eq_some_iff.mp hc
  refine ⟨nofun, ?_⟩
  rintro ⟨⟩
  exact not_isDigit_underscore hd

theorem wellSeparated_of_separated (cs : List Char) (h : Separated (.radix base) (cs ++ ds)) (hc : 2 ≤ cs.length)
    (hd : ∀ d ∈ ds, d = '_' ∨ IsDigit base d) (hn : ds ≠ []) (hu : ds.head? ≠ some '_') : Digits.wellSeparated ds := by
  rw [wellSeparated_iff_between hn hd]
  rintro before after rfl
  obtain ⟨hb, ha⟩ := h (cs ++ before) after (List.append_assoc ..).symm
  refine ⟨?_, ha⟩
  cases before
  case nil => exact (hu rfl).elim
  case cons d before =>
    obtain hb | ⟨-, hb⟩ := hb
    case inl => simpa [Form.base] using hb
    case inr =>
      have hl : (cs ++ d :: before).length ≤ 2 := by
        obtain ⟨-, he⟩ | ⟨_, he, -⟩ := hb.eq_nil_or <;> simp [he]
      simp only [List.length_append, List.length_cons] at hl
      omega

theorem separated_of_wellSeparated (hl : Lead base ['0', c]) (hd : ∀ d ∈ ds, d = '_' ∨ IsDigit base d) (h : Digits.wellSeparated ds) :
    Separated (.radix base) ('0' :: c :: '_' :: ds) := by
  obtain ⟨d, es, rfl, hu⟩ := exists_cons_of_wellSeparated h
  rintro (_ | ⟨_, _ | ⟨_, _ | ⟨_, before⟩⟩⟩) after he
  case nil => cases he
  case cons.nil =>
    cases he
    exact (hl.underscore_not_mem <| by simp).elim
  case cons.cons.nil =>
    cases he
    exact ⟨.inr ⟨nofun, hl⟩, d, rfl, (hd d <| .head _).resolve_left hu⟩
  case cons.cons.cons =>
    simp only [List.cons_append, List.cons.injEq] at he
    obtain ⟨rfl, rfl, rfl, he⟩ := he
    obtain ⟨⟨b, hb, hd⟩, ha⟩ := (wellSeparated_iff_between (List.cons_ne_nil d es) hd).mp h before after he
    obtain ⟨before, rfl⟩ := List.getLast?_eq_some_iff.mp hb
    exact ⟨.inl ⟨b, List.getLast?_eq_some_iff.mpr ⟨'0' :: c :: '_' :: before, by simp⟩, hd⟩, ha⟩

theorem wellSeparated_iff_joined (hl : Lead base ['0', c]) (hd : ∀ d ∈ ds, d = '_' ∨ IsDigit base d) :
    Digits.wellSeparated (ds.dropWhile (· = '_')) ↔ Separated (.radix base) (joined ('0' :: c :: ds)) := by
  have hd : ∀ d ∈ ds.dropWhile (· = '_'), d = '_' ∨ IsDigit base d := fun d hm => hd d <| List.dropWhile_sublist _ |>.mem hm
  constructor
  case mp => exact separated_of_wellSeparated hl hd
  case mpr =>
    intro h
    obtain ⟨hn, hu⟩ := head_of_separated ['0', c] h
    exact wellSeparated_of_separated ['0', c, '_'] h (Nat.le_succ 2) hd hn hu

theorem wellSeparated_of_radix (hl : Lead base ['0', c]) (hn : ds ≠ []) (hd : ∀ d ∈ ds, d = '_' ∨ IsDigit base d)
    (h : Separated (.radix base) ('0' :: c :: ds)) : Digits.wellSeparated (ds.dropWhile (· = '_')) := by
  have hw {es : List Char} (hu : es.head? ≠ some '_') : es.dropWhile (· = '_') = es := by
    cases es
    case nil  => rfl
    case cons => exact List.dropWhile_cons_of_neg <| by simpa using hu
  by_cases hu : ds.head? = some '_'
  case pos =>
    obtain ⟨ds, rfl⟩ := List.head?_eq_some_iff.mp hu
    obtain ⟨-, hu⟩ := head_of_separated ['0', c] h
    refine (wellSeparated_iff_joined hl hd).mpr ?_
    rwa [joined, List.dropWhile_cons_of_pos rfl, hw hu]
  case neg =>
    rw [hw hu]
    exact wellSeparated_of_separated ['0', c] h (Nat.le_refl 2) hd hn hu

-- A text that matches a pattern is measured whole. Each part of a real number ends where the next one can begin.

def IsFraction (cs : List Char) : Prop :=
  cs = [] ∨ ∃ fs, cs = '.' :: fs ∧ ∀ f ∈ fs, isDigitOrUnderscore f

-- What can stand behind a real number in a pattern.
def IsTail (cs : List Char) : Prop :=
  cs = [] ∨ cs = ['j'] ∨ cs = ['J']

theorem MatchesReal.parts (h : MatchesReal form text) : ∃ ds fs e, text = ds ++ (fs ++ e) ∧ (∀ d ∈ ds, isDigitOrUnderscore d) ∧
    IsFraction fs ∧ IsExponent e ∧ form = if fs.length + e.length = 0 then .decimal else .float := by
  cases h
  case whole h => exact ⟨text, [], [], by simp, h.all, .inl rfl, .none, rfl⟩
  case fraction ds fs e h hf he => exact ⟨ds, '.' :: fs, e, rfl, h.all, .inr ⟨fs, rfl, hf⟩, he, by simp⟩
  case point fs e h he => exact ⟨[], '.' :: fs, e, rfl, nofun, .inr ⟨fs, rfl, h.all⟩, he, by simp⟩
  case exponent ds e h he hn => exact ⟨ds, [], e, rfl, h.all, .inl rfl, he, by simp [hn]⟩

theorem stops (he : IsExponent e) (ht : IsTail tail) : ∀ c ∈ (e ++ tail).head?, isDigitOrUnderscore c = false ∧ c ≠ '.' := by
  rintro c hc
  cases he
  case none => obtain rfl | rfl | rfl := ht <;> cases hc <;> decide
  case some he _ _ _ => obtain rfl | rfl := he <;> cases hc <;> decide

theorem signLength_append {sign : List Char} (hs : sign = [] ∨ sign = ['+'] ∨ sign = ['-']) (hn : ds ≠ []) (hd : ∀ d ∈ ds, d.isDigit) :
    signLength (sign ++ (ds ++ tail)) = sign.length := by
  obtain rfl | rfl | rfl := hs
  case inr.inl | inr.inr => rfl
  case inl =>
    obtain ⟨d, ds, rfl⟩ := List.exists_cons_of_ne_nil hn
    simp only [signLength]
    split
    case h_3 => rfl
    all_goals
      rename_i hc
      cases hc
      cases hd _ (.head _)

theorem exponentLength_append (he : IsExponent e) (ht : IsTail tail) : exponentLength (e ++ tail) = e.length := by
  cases he
  case none => obtain rfl | rfl | rfl := ht <;> rfl
  case some e sign ds he hs hn hd =>
    have ht : (ds ++ tail).takeWhile Char.isDigit = ds := by
      refine Lexeme.takeWhile_eq_of hd ?_
      obtain rfl | rfl | rfl := ht <;> simp
    rw [List.cons_append, List.append_assoc, exponentLength_cons he, signLength_append hs hn hd, List.drop_left, ht, if_neg (by simpa using hn)]
    simp only [List.length_cons, List.length_append]
    omega

theorem fractionLength_append (hf : IsFraction fs) (he : IsExponent e) (ht : IsTail tail) : fractionLength (fs ++ (e ++ tail)) = fs.length := by
  have hh := stops he ht
  generalize e ++ tail = rest at hh
  obtain rfl | ⟨fs, rfl, hf⟩ := hf
  case inl =>
    cases rest
    case nil => rfl
    case cons c rest => simp [fractionLength, (hh c rfl).right]
  case inr =>
    rw [List.cons_append, fractionLength, Lexeme.takeWhile_eq_of hf fun c hc => (hh c hc).left]
    exact Nat.add_comm ..

theorem wholeLength_append (hd : ∀ d ∈ ds, isDigitOrUnderscore d) (hf : IsFraction fs) (he : IsExponent e) (ht : IsTail tail) :
    wholeLength (ds ++ (fs ++ (e ++ tail))) = ds.length := by
  rw [wholeLength, Lexeme.takeWhile_eq_of hd fun c hc => ?_]
  obtain rfl | ⟨fs, rfl, hf⟩ := hf
  case inl => exact (stops he ht c hc).left
  case inr =>
    cases hc
    rfl

theorem measureRadix?_eq_none (h : ∀ c ∈ cs, baseOf? c = none) : measureRadix? cs = none := by
  refine Option.eq_none_iff_forall_ne_some.mpr fun ⟨base, n⟩ hm => ?_
  obtain ⟨c, ds, rfl, hb, -⟩ := measureRadix?_inv hm
  rw [h c (by simp)] at hb
  cases hb

theorem baseOf?_of_isFraction (h : IsFraction fs) : ∀ c ∈ fs, baseOf? c = none := by
  obtain rfl | ⟨fs, rfl, hf⟩ := h
  case inl => nofun
  case inr => exact List.forall_mem_cons.mpr ⟨rfl, fun c hc => baseOf?_of_digit <| hf c hc⟩

theorem baseOf?_of_isExponent (h : IsExponent e) : ∀ c ∈ e, baseOf? c = none := by
  cases h
  case none => nofun
  case some e sign ds he hs _ hd =>
    have hs : ∀ c ∈ sign, baseOf? c = none := by obtain rfl | rfl | rfl := hs <;> simp [baseOf?]
    refine List.forall_mem_cons.mpr ⟨?_, List.forall_mem_append.mpr ⟨hs, fun d h => baseOf?_of_digit ?_⟩⟩
    · obtain rfl | rfl := he <;> rfl
    · simp [isDigitOrUnderscore, hd d h]

theorem MatchesReal.measure_eq (h : MatchesReal form text) (ht : IsTail tail) :
    measure (text ++ tail) = (if tail = [] then form else .imaginary, (text ++ tail).length) := by
  obtain ⟨ds, fs, e, rfl, hd, hf, he, rfl⟩ := h.parts
  have hb : ∀ c ∈ ds ++ (fs ++ (e ++ tail)), baseOf? c = none := by
    have hj : ∀ c ∈ tail, baseOf? c = none := by obtain rfl | rfl | rfl := ht <;> simp [baseOf?]
    simp only [List.forall_mem_append]
    exact ⟨fun d h => baseOf?_of_digit <| hd d h, baseOf?_of_isFraction hf, baseOf?_of_isExponent he, hj⟩
  have hw := wholeLength_append hd hf he ht
  have hp : partLength (fs ++ (e ++ tail)) = fs.length + e.length := by
    rw [partLength, fractionLength_append hf he ht, List.drop_left, exponentLength_append he ht]
  have hl : decimalLength (ds ++ (fs ++ (e ++ tail))) = ds.length + (fs.length + e.length) := by
    rw [decimalLength, hw, List.drop_left, hp]
  have hr : (ds ++ (fs ++ (e ++ tail))).drop (ds.length + (fs.length + e.length)) = tail := by
    rw [← List.drop_drop, List.drop_left, ← List.drop_drop, List.drop_left, List.drop_left]
  simp only [List.append_assoc]
  rw [measure_of_none <| measureRadix?_eq_none hb, hl, hr, hw, List.drop_left, hp]
  simp only [List.length_append]
  obtain rfl | rfl | rfl := ht <;> simp [Nat.add_assoc]

theorem measure_eq_radix (hl : Lead base ['0', c]) (hn : ds ≠ []) (hd : ∀ d ∈ ds, d = '_' ∨ IsDigit base d) :
    measure ('0' :: c :: ds) = (.radix base, ('0' :: c :: ds).length) := by
  have ht : ds.takeWhile (fun d => Digits.isOf base d || d == '_') = ds := by
    refine List.takeWhile_eq_self_iff.mpr fun d h => ?_
    obtain rfl | hd := hd d h
    case inl => simp
    case inr => simp [(isOf_iff hl.base_mem).mpr hd]
  obtain ⟨-, he⟩ | ⟨_, he, hb, -⟩ := hl.eq_nil_or <;> cases he
  simp [measure, measureRadix?, hb, ht, hn]

theorem Matches.measure_eq (h : Matches form text) : measure text = (form, text.length) := by
  cases h
  case real h =>
    have hm := h.measure_eq (.inl rfl : IsTail [])
    rwa [List.append_nil, if_pos rfl] at hm
  case radix hl hn hd => exact measure_eq_radix hl hn hd
  case imaginary cs form j h hj =>
    rw [h.measure_eq <| by simpa [IsTail] using hj, if_neg <| List.cons_ne_nil j []]

end Numeral

open Numeral (IsWhole MatchesReal)

-- A text that matches a pattern is read whole.

namespace Lexeme

theorem read_whole (h : IsWhole ds) : read (ds ++ cs) = readNumeral (ds ++ cs) := by
  obtain ⟨c, ds, rfl, hc, -⟩ := h
  exact read_digit hc

theorem read_point (h : IsWhole fs) : read ('.' :: fs ++ cs) = readNumeral ('.' :: fs ++ cs) := by
  obtain ⟨c, fs, rfl, hc, -⟩ := h
  rw [List.cons_append, List.cons_append, read, if_pos hc]

theorem read_real (h : MatchesReal form cs) : read (cs ++ tail) = readNumeral (cs ++ tail) := by
  cases h
  case whole h => exact read_whole h
  case fraction h _ _ | exponent h _ _ =>
    rw [List.append_assoc]
    exact read_whole h
  case point h _ =>
    rw [List.append_assoc]
    exact read_point h

theorem read_of_matches (h : Matches form text) : read text = readNumeral text := by
  cases h
  case real h =>
    rw [← text.append_nil]
    exact read_real h
  case radix      => exact read_digit rfl
  case imaginary h _ => exact read_real h

theorem scan_whole {p : Piece} (h : read (c :: cs) = (p, (c :: cs).length)) : scan (c :: cs) = [⟨p, c :: cs⟩] := by
  rw [scan, h]
  simp [scan]

end Lexeme

theorem Layout.run_fault {cause : SyntaxError.Cause} :
    run .initial [⟨.fault cause, text⟩] = .error (.error ⟨cause, .between 0 (utf8Length text)⟩) := by
  change Except.error (ReadFailure.error ⟨cause, .between 0 (0 + utf8Length text)⟩) = _
  rw [Nat.zero_add]

theorem tokenize_of_matches (h : Matches form text) : tokenize text = match kind? form text with
    | some k  => .ok (alone k (utf8Length text))
    | none    => .error (.error ⟨.invalidInteger, .between 0 (utf8Length text)⟩) := by
  have hr : Lexeme.read text = (match kind? form text with
      | some k  => .token k
      | none    => .fault .invalidInteger, text.length) := by
    rw [Lexeme.read_of_matches h, Lexeme.readNumeral, h.measure_eq]
    simp only [List.take_length]
    cases kind? form text <;> rfl
  cases text
  case nil => split at hr <;> cases hr
  case cons c cs =>
    rw [tokenize, Lexeme.scan_whole hr]
    cases kind? form (c :: cs)
    case none => exact Layout.run_fault
    case some => exact Layout.run_alone

theorem lexes_iff (h : Matches form text) : Lexes text ↔ kind? form text ≠ none := by
  rw [Lexes, tokenize_of_matches h]
  cases kind? form text <;> simp

theorem lexes_decimal (h : Matches .decimal text) : Lexes text ↔ Separated .decimal text := by
  have hw : IsWhole text := by
    obtain ⟨⟨hw⟩⟩ := h
    exact hw
  rw [lexes_iff h, ← Numeral.wellSeparated_iff_separated hw, kind?]
  simp

theorem lexes_radix (h : Matches (.radix base) text) : (Lexes text ↔ Separated (.radix base) (joined text)) ∧
    (Separated (.radix base) text → Lexes text) := by
  cases h
  case real h => cases h
  case radix c ds hn hl hd =>
    have hk : Lexes ('0' :: c :: ds) ↔ Digits.wellSeparated (ds.dropWhile (· = '_')) := by
      rw [lexes_iff <| .radix hl hn hd, kind?]
      simp
    exact ⟨hk.trans <| Numeral.wellSeparated_iff_joined hl hd, fun hs => hk.mpr <| Numeral.wellSeparated_of_radix hl hn hd hs⟩

theorem lexes_real (h : Matches form text) (hf : form = .float ∨ form = .imaginary) : Lexes text := by
  rw [lexes_iff h]
  obtain rfl | rfl := hf <;> nofun

theorem tokenize_underscored (h : Matches form text) : Underscored form text where
  decimal := by
    rintro rfl
    exact lexes_decimal h
  radix := by
    rintro base rfl
    exact (lexes_radix h).left
  real      := lexes_real h
  separated := by
    cases form
    case decimal            => exact (lexes_decimal h).mpr
    case radix              => exact (lexes_radix h).right
    case float | imaginary  => exact fun _ => lexes_real h <| by simp
  single hl := by
    obtain ⟨k, hk⟩ := Option.ne_none_iff_exists'.mp <| (lexes_iff h).mp hl
    exact ⟨k, hk, by rw [tokenize_of_matches h, hk]⟩
  rejected hl := by
    rw [tokenize_of_matches h, not_not.mp <| mt (lexes_iff h).mpr hl]

theorem Numeral.Matches.of_all (hl : Lead base ['0', c]) (hn : ds ≠ []) (hd : ds.all fun d => d = '_' ∨ IsDigit base d) :
    Matches (.radix base) ('0' :: c :: ds) :=
  .radix hl hn fun d h => of_decide_eq_true <| List.all_eq_true.mp hd d h

def grouped : List Char :=
  "0x_dead_beef".toList

theorem grouped_underscored : Matches (.radix 16) grouped ∧ Underscored (.radix 16) grouped := by
  have hm : Matches (.radix 16) grouped := .of_all (.hexadecimal <| .inl rfl) nofun (by decide)
  exact ⟨hm, tokenize_underscored hm⟩

-- Two underscores in a row, behind the letter of a base and in front of a point.
theorem doubled_lexes : (Matches (.radix 16) "0x__1".toList ∧ Lexes "0x__1".toList ∧ ¬Separated (.radix 16) "0x__1".toList) ∧
    Matches .float "1__0.5".toList ∧ Lexes "1__0.5".toList ∧ ¬Separated .float "1__0.5".toList := by
  constructor
  case left =>
    have hm : Matches (.radix 16) "0x__1".toList := .of_all (.hexadecimal <| .inl rfl) nofun (by decide)
    refine ⟨hm, (lexes_iff hm).mpr (by decide), fun h => ?_⟩
    obtain ⟨-, c, hc, hd⟩ := h ['0', 'x'] ['_', '1'] rfl
    cases hc
    exact Numeral.not_isDigit_underscore hd
  case right =>
    have hw : IsWhole "1__0".toList := ⟨'1', ['_', '_', '0'], rfl, rfl, by simp [Numeral.isDigitOrUnderscore]⟩
    have hf : ∀ d ∈ ['5'], Numeral.isDigitOrUnderscore d := by simp [Numeral.isDigitOrUnderscore]
    have hm : Matches .float "1__0.5".toList := .real (.fraction hw hf .none)
    refine ⟨hm, lexes_real hm <| .inl rfl, fun h => ?_⟩
    obtain ⟨-, c, hc, hd⟩ := h ['1'] ['_', '0', '.', '5'] rfl
    cases hc
    exact Numeral.not_isDigit_underscore hd

end PyVerify.Token
