import PyVerify.Proofs.Code.Literal
import PyVerify.Token.Layout

namespace PyVerify

theorem exists_ok_of_bind {ε α β : Type} {x : Except ε α} {f : α → Except ε β} {b : β} (h : (x >>= f) = .ok b) :
    ∃ a, x = .ok a ∧ f a = .ok b := by
  cases x
  case error => cases h
  case ok a => exact ⟨a, rfl, h⟩

theorem exists_ok_of_toOption {ε α β : Type} {x : Except ε α} {f : α → Option β} {b : β} (h : x.toOption.bind f = some b) :
    ∃ a, x = .ok a ∧ f a = some b := by
  cases x
  case error => cases h
  case ok a => exact ⟨a, rfl, h⟩

-- The characters of literals that stand behind each other.
theorem toList_append_of {a b : String} {as bs : List Char} (ha : a.toList = as) (hb : b.toList = bs) :
    (a ++ b).toList = as ++ bs := by
  rw [String.toList_append, ha, hb]

namespace Token

open Code (isEscaped isEscaped_cons)

-- A name is a word that is not reserved.
structure IsName (text : String) : Prop where
  word : ∀ c ∈ text.toList, Lexeme.isNameChar c
  free : Keyword.ofText? text = none

theorem isName_iff {text : String} :
    IsName text ↔ text.toList.all Lexeme.isNameChar ∧ Keyword.ofText? text = none :=
  ⟨fun h => ⟨List.all_eq_true.mpr h.word, h.free⟩, fun h => ⟨List.all_eq_true.mp h.left, h.right⟩⟩

instance {text : String} : Decidable (IsName text) :=
  decidable_of_iff' _ isName_iff

-- What a text guarantees of the names and strings in it.
def Kind.IsLexical : Kind → Prop
  | name text => IsName text
  | str body  => isEscaped body.toList
  | _         => True

def Piece.IsLexical (p : Piece) : Prop :=
  ∀ k, p = .token k → k.IsLexical

variable {quote c : Char} {cs ds text rest markers : List Char} {n : Nat}

theorem isEscaped_append (h : isEscaped cs) (hd : isEscaped ds) : isEscaped (cs ++ ds) := by
  fun_induction isEscaped cs
  case case1 => cases h
  case case2 hi => exact hi h
  case case3 c cs hn hb hi =>
    rw [List.cons_append, isEscaped_cons <| Code.ne_backslash hn hb]
    exact hi h
  case case4 => exact hd

namespace Quotation

theorem LongBody.extend_eq_closed {b : LongBody} {k : Nat} (h : b.extend k = .closed n) :
    ∃ m, b = .closed m ∧ m + k = n := by
  cases b
  case closed m => exact ⟨m, rfl, LongBody.closed.inj h⟩
  all_goals cases h

theorem lineBody_escaped (h : lineBody quote cs = (n, true)) : isEscaped (cs.take n) := by
  fun_induction lineBody quote cs generalizing n
  case case2 =>
    obtain rfl : 0 = n := (Prod.mk.inj h).left
    rfl
  case case5 m closed hb _ hi =>
    obtain ⟨rfl, rfl⟩ := Prod.mk.inj h
    exact hi hb
  case case7 hc _ m closed hb hi =>
    obtain ⟨rfl, rfl⟩ := Prod.mk.inj h
    rw [List.take_succ_cons, isEscaped_cons hc]
    exact hi hb
  all_goals cases h

theorem longBody_escaped (h : longBody quote cs = .closed n) : isEscaped (cs.take n) := by
  fun_induction longBody quote cs generalizing n
  case case5 hi =>
    obtain ⟨m, hb, rfl⟩ := LongBody.extend_eq_closed h
    exact hi hb
  case case6 =>
    cases h
    rfl
  case case7 hc _ hi =>
    obtain ⟨m, hb, rfl⟩ := LongBody.extend_eq_closed h
    rw [List.take_succ_cons, isEscaped_cons hc]
    exact hi hb
  all_goals cases h

theorem read_escaped (h : read quote cs = .literal text n) : isEscaped text := by
  simp only [read] at h
  split at h
  case isTrue =>
    split at h
    case h_1 hb =>
      cases h
      exact longBody_escaped hb
    all_goals cases h
  case isFalse =>
    split at h
    case h_1 hb =>
      cases h
      exact lineBody_escaped hb
    case h_2 => cases h

theorem kind_isLexical (h : isEscaped text) : (kind markers text).IsLexical := by
  unfold kind
  split
  case isTrue   => trivial
  case isFalse  => simpa [Kind.IsLexical] using h

end Quotation

theorem Numeral.kind?_isLexical {form : Form} {k : Kind} (h : kind? form cs = some k) : k.IsLexical := by
  have hi : ∀ {base lead digits}, (integer base lead digits).IsLexical := by
    intro base lead digits
    simp only [integer]
    split <;> trivial
  unfold kind? at h
  grind [Kind.IsLexical]

namespace Lexeme

theorem word_isLexical (h : ∀ c ∈ cs, isNameChar c) : (word cs).IsLexical := by
  simp only [word]
  split
  case h_1      => trivial
  case h_2 hk   => exact ⟨by simpa using h, hk⟩

theorem isLexical_of_ne {p : Piece} (h : ∀ k, p ≠ .token k) : p.IsLexical :=
  fun k hk => (h k hk).elim

theorem isLexical_token {k : Kind} (h : k.IsLexical) : (Piece.token k).IsLexical := by
  rintro _ ⟨⟩
  exact h

theorem literal?_isLexical {p : Piece} (h : literal? markers quote cs = some (p, n)) : p.IsLexical := by
  unfold literal? at h
  split at h
  case h_1 hr =>
    cases h
    exact isLexical_token <| Quotation.kind_isLexical <| Quotation.read_escaped hr
  all_goals
    cases h
    try exact isLexical_of_ne nofun

theorem readWord_isLexical (h : ∀ c ∈ cs, isNameChar c) : (readWord cs rest).fst.IsLexical := by
  have hw := isLexical_token <| word_isLexical h
  simp only [readWord]
  split
  case h_2 => exact hw
  case h_1 =>
    split
    case isFalse => exact hw
    case isTrue =>
      split
      case h_1 hl => exact literal?_isLexical hl
      case h_2    => exact hw

theorem readNumeral_isLexical : (readNumeral cs).fst.IsLexical := by
  simp only [readNumeral]
  split
  case h_1 hk => exact isLexical_token <| Numeral.kind?_isLexical hk
  case h_2    => exact isLexical_of_ne nofun

theorem readSign_isLexical : (readSign cs).fst.IsLexical := by
  have hs : ∀ p ∈ signs, p.snd.IsLexical := by simp [signs, Kind.IsLexical]
  unfold readSign
  split
  case h_1 hf => exact isLexical_token <| hs _ <| List.mem_of_find?_eq_some hf
  case h_2    => exact isLexical_of_ne nofun

theorem read_isLexical : (read cs).fst.IsLexical := by
  fun_cases read cs
  case case6 | case9  => exact readNumeral_isLexical
  case case7 | case12 => exact readSign_isLexical
  case case10 c cs _ _ _ _ _ _ _ _ hc more =>
    exact readWord_isLexical <| List.forall_mem_cons.mpr ⟨hc, List.all_eq_true.mp List.all_takeWhile⟩
  case case11 c cs _ _ _ _ _ _ _ _ _ _ =>
    cases hl : literal? [] c cs
    case none => exact isLexical_of_ne nofun
    case some => exact literal?_isLexical hl
  all_goals exact isLexical_of_ne nofun

theorem isLexical_of_read {p : Piece} (h : read cs = (p, n)) : p.IsLexical := by
  have hr : (read cs).fst.IsLexical := read_isLexical
  rwa [h] at hr

theorem scan_isLexical : ∀ l ∈ scan cs, l.piece.IsLexical := by
  fun_induction scan cs
  case case1 => exact List.forall_mem_nil _
  case case2 hr _ _     => exact List.forall_mem_singleton.mpr <| isLexical_of_read hr
  case case3 hr _ _ hi  => exact List.forall_mem_cons.mpr ⟨isLexical_of_read hr, hi⟩

end Lexeme

namespace Layout

variable {s t : State} {l : Lexeme} {ls : List Lexeme} {tokens : List PyVerify.Token}

theorem margin?_isLexical {widths : List Nat} (h : margin? s = some (tokens, widths)) :
    ∀ t ∈ tokens, t.kind.IsLexical := by
  simp only [margin?] at h
  split at h
  case isTrue =>
    cases h
    exact List.forall_mem_singleton.mpr trivial
  case isFalse =>
    split at h
    case isFalse => cases h
    case isTrue =>
      cases h
      exact List.forall_mem_map.mpr fun _ _ => trivial

theorem finish_isLexical : ∀ t ∈ finish s, t.kind.IsLexical := by
  simp only [finish, List.forall_mem_append, List.forall_mem_map, List.forall_mem_singleton]
  refine ⟨⟨?_, fun _ _ => trivial⟩, trivial⟩
  split <;> simp [Kind.IsLexical]

theorem step_isLexical (hl : l.piece.IsLexical) (h : step s l = .ok (tokens, t)) :
    ∀ t ∈ tokens, t.kind.IsLexical := by
  simp only [step] at h
  split at h
  case h_1 =>
    cases h
    nofun
  case h_2 =>
    split at h
    all_goals cases h
    case isTrue => nofun
    case isFalse => split <;> simp [Kind.IsLexical]
  case h_3 k hk =>
    obtain ⟨⟨opened, widths⟩, ho, h⟩ := exists_ok_of_bind h
    obtain ⟨rfl, -⟩ := Prod.mk.inj (Except.ok.inj h)
    refine List.forall_mem_append.mpr ⟨?_, List.forall_mem_singleton.mpr (hl k hk)⟩
    split at ho
    case isTrue =>
      cases ho
      nofun
    case isFalse =>
      split at ho
      case h_1 hm =>
        cases ho
        exact margin?_isLexical hm
      case h_2 => cases ho
  case h_4 =>
    obtain ⟨_, -, h⟩ := exists_ok_of_bind h
    cases h
  case h_5 => cases h

theorem run_isLexical (hl : ∀ l ∈ ls, l.piece.IsLexical) (h : run s ls = .ok tokens) :
    ∀ t ∈ tokens, t.kind.IsLexical := by
  induction ls generalizing s tokens
  case nil =>
    cases h
    exact finish_isLexical
  case cons l ls hi =>
    obtain ⟨hl, hls⟩ := List.forall_mem_cons.mp hl
    obtain ⟨⟨first, t⟩, hs, h⟩ := exists_ok_of_bind h
    obtain ⟨rest, hr, h⟩ := exists_ok_of_bind h
    cases h
    exact List.forall_mem_append.mpr ⟨step_isLexical hl hs, hi hls hr⟩

end Layout

-- The names and strings of a token list are those of its text.
theorem tokenize_isLexical {tokens : List PyVerify.Token} (h : tokenize text = .ok tokens) :
    ∀ t ∈ tokens, t.kind.IsLexical :=
  Layout.run_isLexical Lexeme.scan_isLexical h

end Token
end PyVerify
