import PyVerify.Proofs.Token.Lexical

namespace PyVerify.Token

-- The characters of a line break.
def IsBreak (cs : List Char) : Prop :=
  cs = ['\n'] ∨ cs = ['\r', '\n']

-- A literal is its body between quotes, with markers before them.
def Quotation.Encloses (cs body : List Char) : Prop :=
  ∃ markers quote n, cs = markers ++ List.replicate n quote ++ body ++ List.replicate n quote ∧
    markers.length ≤ 2 ∧ (∀ c ∈ markers, Quotation.isMarker c) ∧ Quotation.isQuote quote ∧ (n = 1 ∨ n = 3)

-- What a token tells of the characters that it was read from.
def Kind.Spells (cs : List Char) : Kind → Prop
  | name text                       => cs = text.toList
  | str body | bytes body           => Quotation.Encloses cs body.toList
  | newline | indent | dedent | eof => False
  | _                               => True

-- A piece as it stands in a text, and what stands behind it.
inductive Reads : Piece → List Char → List Char → Prop
  | blanks (hn : cs ≠ []) (h : ∀ c ∈ cs, Lexeme.isBlank c) : Reads .blank cs rest
  | comment (h : ∀ c ∈ cs, c ≠ '\r' ∧ c ≠ '\n') (hr : ∀ c ∈ rest.head?, c = '\r' ∨ c = '\n') :
    Reads .blank ('#' :: cs) rest
  | joined (h : IsBreak cs) : Reads .blank ('\\' :: cs) rest
  | lineBreak (h : IsBreak cs) : Reads .lineBreak cs rest
  | token (hn : cs ≠ []) (hk : k.Spells cs) (hc : ∀ c ∈ cs.head?, c ≠ '\r' ∧ c ≠ '\n') : Reads (.token k) cs rest

variable {quote c : Char} {cs ds text rest markers body : List Char} {m n : Nat} {p : Piece} {k : Kind}

namespace Quotation

theorem lineBody_closed (h : lineBody quote cs = (n, true)) : ∃ body rest, cs = body ++ quote :: rest ∧ body.length = n := by
  fun_induction lineBody quote cs generalizing n
  case case2 cs =>
    cases h
    exact ⟨[], cs, rfl, rfl⟩
  case case5 d ds _ m closed hb _ hi =>
    obtain ⟨rfl, rfl⟩ := Prod.mk.inj h
    obtain ⟨body, rest, rfl, rfl⟩ := hi hb
    exact ⟨'\\' :: d :: body, rest, rfl, rfl⟩
  case case7 c _ _ _ _ m closed hb hi =>
    obtain ⟨rfl, rfl⟩ := Prod.mk.inj h
    obtain ⟨body, rest, rfl, rfl⟩ := hi hb
    exact ⟨c :: body, rest, rfl, rfl⟩
  all_goals cases h

theorem longBody_closed (h : longBody quote cs = .closed n) :
    ∃ body rest, cs = body ++ List.replicate 3 quote ++ rest ∧ body.length = n := by
  fun_induction longBody quote cs generalizing n
  case case5 d ds _ _ hi =>
    obtain ⟨m, hb, rfl⟩ := LongBody.extend_eq_closed h
    obtain ⟨body, rest, rfl, rfl⟩ := hi hb
    exact ⟨'\\' :: d :: body, rest, rfl, rfl⟩
  case case6 hq =>
    cases h
    obtain ⟨rest, hr⟩ := List.isPrefixOf_iff_prefix.mp hq
    exact ⟨[], rest, hr.symm, rfl⟩
  case case7 c _ _ _ _ hi =>
    obtain ⟨m, hb, rfl⟩ := LongBody.extend_eq_closed h
    obtain ⟨body, rest, rfl, rfl⟩ := hi hb
    exact ⟨c :: body, rest, rfl, rfl⟩
  all_goals cases h

-- A literal ends with as many quotes as it begins with.
theorem read_literal (h : read quote cs = .literal body n) :
    ∃ k rest, (k = 1 ∨ k = 3) ∧ quote :: cs = List.replicate k quote ++ body ++ List.replicate k quote ++ rest ∧
      n + 1 = (List.replicate k quote ++ body ++ List.replicate k quote).length := by
  simp only [read] at h
  split at h
  case isTrue hq =>
    split at h
    case h_1 m hb =>
      cases h
      obtain ⟨ds, rfl⟩ := List.isPrefixOf_iff_prefix.mp hq
      obtain ⟨body, rest, hd, rfl⟩ := longBody_closed hb
      change ds = _ at hd
      exact ⟨3, rest, .inr rfl, by simp [hd], by simp [hd]⟩
    all_goals cases h
  case isFalse =>
    split at h
    case h_1 hb =>
      cases h
      obtain ⟨body, rest, rfl, rfl⟩ := lineBody_closed hb
      exact ⟨1, rest, .inl rfl, by simp, by simp⟩
    case h_2 => cases h

end Quotation

theorem Numeral.kind?_spells {form : Form} (h : kind? form cs = some k) : k.Spells ds := by
  have hi : ∀ {base lead digits}, (integer base lead digits).Spells ds := by
    intro base lead digits
    simp only [integer]
    split <;> trivial
  unfold kind? at h
  grind [Kind.Spells]

theorem Quotation.kind_spells (hm : markers.length ≤ 2) (hs : ∀ c ∈ markers, isMarker c) (hq : isQuote quote)
    (hn : n = 1 ∨ n = 3) : (kind markers body).Spells (markers ++ List.replicate n quote ++ body ++ List.replicate n quote) := by
  have he : Encloses (markers ++ List.replicate n quote ++ body ++ List.replicate n quote) body :=
    ⟨markers, quote, n, rfl, hm, hs, hq, hn⟩
  unfold kind
  split <;> simpa [Kind.Spells] using he

namespace Lexeme

theorem word_spells : (word cs).Spells cs := by
  simp only [word]
  split
  case h_1 => trivial
  case h_2 => simp [Kind.Spells]

theorem signs_spell : ∀ s ∈ signs, s.snd.Spells cs := by
  simp [signs, Kind.Spells]

-- The characters of a literal, from its markers on.
theorem literal?_spells (h : literal? markers quote cs = some (p, n)) (hl : ¬isLast p) (hm : markers.length ≤ 2)
    (hs : ∀ c ∈ markers, Quotation.isMarker c) (hq : Quotation.isQuote quote) :
    ∃ k ds rest, p = .token k ∧ markers ++ quote :: cs = ds ++ rest ∧ ds.length = markers.length + n ∧ ds ≠ [] ∧
      k.Spells ds := by
  unfold literal? at h
  split at h
  case h_1 body m hr =>
    cases h
    obtain ⟨i, rest, hi, hc, hn⟩ := Quotation.read_literal hr
    refine ⟨_, _, rest, rfl, ?_, ?_, ?_, Quotation.kind_spells hm hs hq hi⟩
    case refine_1 => simp [hc]
    case refine_2 => simp [hn]
    case refine_3 => obtain rfl | rfl := hi <;> simp
  case h_3 =>
    cases h
    cases hl rfl
  case h_4 =>
    cases h
    cases hl rfl
  case h_5 =>
    cases h
    cases hl rfl
  case h_2 => cases h

-- A piece is given by its length.
theorem take_drop_of_append (h : c :: cs = ds ++ rest) (hn : ds.length = n) (hp : ds ≠ []) :
    c :: cs.take (n - 1) = ds ∧ cs.drop (n - 1) = rest := by
  obtain _ | ⟨d, ds⟩ := ds
  case nil => cases hp rfl
  case cons =>
    obtain ⟨rfl, rfl⟩ := List.cons.inj h
    cases hn
    exact ⟨by simp, by simp⟩

theorem reads_token_of_append (h : c :: cs = ds ++ rest) (hn : ds.length = n) (hp : ds ≠ []) (hk : k.Spells ds)
    (hc : c ≠ '\r' ∧ c ≠ '\n') : Reads (.token k) (c :: cs.take (n - 1)) (cs.drop (n - 1)) := by
  obtain ⟨ht, hd⟩ := take_drop_of_append h hn hp
  rw [hd, ht]
  exact .token hp hk (ht ▸ by simpa using hc)

theorem readWord_reads (h : readWord (c :: text) rest = (p, n)) (hl : ¬isLast p) (hc : c ≠ '\r' ∧ c ≠ '\n') (hs : cs = text ++ rest) :
    Reads p (c :: cs.take (n - 1)) (cs.drop (n - 1)) := by
  have hw : (Piece.token (word (c :: text)), (c :: text).length) = (p, n) → Reads p (c :: cs.take (n - 1)) (cs.drop (n - 1)) := by
    intro h
    cases h
    exact reads_token_of_append (congrArg (c :: ·) hs) rfl nofun word_spells hc
  simp only [readWord] at h
  split at h
  case h_2 => exact hw h
  case h_1 quote after =>
    split at h
    case isFalse => exact hw h
    case isTrue hm =>
      simp only [Bool.and_eq_true, decide_eq_true_eq, List.all_eq_true] at hm
      obtain ⟨⟨hm, ht⟩, hq⟩ := hm
      split at h
      case h_2    => exact hw h
      case h_1 hr =>
        cases h
        obtain ⟨k, ds, rest, rfl, he, hn, hp, hk⟩ := literal?_spells hr hl hm ht hq
        subst hs
        exact reads_token_of_append he hn hp hk hc

theorem readNumeral_reads (h : readNumeral (c :: cs) = (p, n)) (hl : ¬isLast p) (hc : c ≠ '\r' ∧ c ≠ '\n') :
    Reads p (c :: cs.take (n - 1)) (cs.drop (n - 1)) := by
  simp only [readNumeral] at h
  split at h
  case h_1 hk =>
    cases h
    exact .token (List.cons_ne_nil _ _) (Numeral.kind?_spells hk) (by simpa)
  case h_2 =>
    cases h
    cases hl rfl

theorem readSign_reads (h : readSign (c :: cs) = (p, n)) (hl : ¬isLast p) :
    Reads p (c :: cs.take (n - 1)) (cs.drop (n - 1)) := by
  have hc : ∀ s ∈ signs, s.fst ≠ [] ∧ ∀ c ∈ s.fst, c ≠ '\r' ∧ c ≠ '\n' := by simp [signs]
  unfold readSign at h
  split at h
  case h_2 =>
    cases h
    cases hl rfl
  case h_1 sign kind hf =>
    cases h
    have hm := List.mem_of_find?_eq_some hf
    have hq : sign.isPrefixOf (c :: cs) := by simpa using List.find?_some hf
    obtain ⟨rest, hr⟩ := List.isPrefixOf_iff_prefix.mp hq
    obtain ⟨hn, hc⟩ := hc _ hm
    refine reads_token_of_append hr.symm rfl hn (signs_spell _ hm) (hc c ?_)
    cases sign
    case nil  => cases hn rfl
    case cons => exact (List.cons.inj hr).left ▸ .head _

theorem take_length_takeWhile {q : Char → Bool} : ds.take (ds.takeWhile q).length = ds.takeWhile q :=
  (List.prefix_iff_eq_take.mp <| List.takeWhile_prefix q).symm

theorem drop_length_takeWhile {q : Char → Bool} : ds.drop (ds.takeWhile q).length = ds.dropWhile q := by
  have hd : (ds.takeWhile q ++ ds.dropWhile q).drop (ds.takeWhile q).length = ds.dropWhile q := List.drop_left
  rwa [List.takeWhile_append_dropWhile] at hd

theorem reads_of_read (h : read (c :: cs) = (p, n)) (hl : ¬isLast p) : Reads p (c :: cs.take (n - 1)) (cs.drop (n - 1)) := by
  unfold read at h
  split at h
  case h_8 he => cases he
  case h_1 he =>
    cases he
    cases h
    exact .lineBreak (.inl rfl)
  case h_2 he =>
    cases he
    cases h
    exact .lineBreak (.inr rfl)
  case h_3 he =>
    cases he
    cases h
    exact .joined (.inl rfl)
  case h_4 he =>
    cases he
    cases h
    exact .joined (.inr rfl)
  case h_5 ds he =>
    cases he
    cases h
    rw [Nat.add_sub_cancel_left, take_length_takeWhile, drop_length_takeWhile]
    refine .comment (fun c hc => by simpa using List.all_eq_true.mp List.all_takeWhile c hc) fun c hc => ?_
    have hn := List.head?_dropWhile_not (fun c => decide (c ≠ '\r') && decide (c ≠ '\n')) cs
    rw [hc] at hn
    simpa [imp_iff_not_or] using hn
  case h_6 he =>
    cases he
    split at h
    case isTrue   => exact readNumeral_reads h hl (by decide)
    case isFalse  => exact readSign_reads h hl
  case h_7 he =>
    cases he
    split at h
    case isTrue hb =>
      cases h
      rw [Nat.add_sub_cancel_left, take_length_takeWhile]
      exact .blanks nofun <| List.forall_mem_cons.mpr ⟨hb, List.all_eq_true.mp List.all_takeWhile⟩
    case isFalse =>
      split at h
      case isTrue hd => exact readNumeral_reads h hl (by constructor <;> (rintro rfl; cases hd))
      case isFalse =>
        split at h
        case isTrue hn =>
          have hc : c ≠ '\r' ∧ c ≠ '\n' := by constructor <;> (rintro rfl; cases hn)
          exact readWord_reads h hl hc (by rw [drop_length_takeWhile, List.takeWhile_append_dropWhile])
        case isFalse =>
          split at h
          case isFalse => exact readSign_reads h hl
          case isTrue hq =>
            cases hr : literal? [] c cs
            case none =>
              rw [hr] at h
              cases h
              cases hl rfl
            case some =>
              rw [hr] at h
              cases h
              have hc : c ≠ '\r' ∧ c ≠ '\n' := by constructor <;> (rintro rfl; cases hq)
              obtain ⟨k, ds, rest, rfl, he, hn, hp, hk⟩ := literal?_spells hr hl (Nat.zero_le _) nofun hq
              exact reads_token_of_append he (hn.trans <| Nat.zero_add _) hp hk hc

end Lexeme
end PyVerify.Token
