import Mathlib.Data.List.Find
import PyVerify.Proofs.Token.Piece

namespace PyVerify.Token

-- The text ends in a line feed.
def IsLines (cs : List Char) : Prop :=
  ['\n'] <:+ cs

-- A text stands behind another one, and does not go on with its last line.
def Sealed (cs ds : List Char) : Prop :=
  IsLines cs ∨ ∀ c ∈ ds.head?, c = '\r' ∨ c = '\n'

variable {c : Char} {cs ds w sign : List Char} {n : Nat} {q : Char → Bool}

theorem newline_not_mem_takeWhile (hq : q '\n' = false) : '\n' ∉ cs.takeWhile q := by
  intro hn
  have ht := List.all_eq_true.mp List.all_takeWhile '\n' hn
  rw [hq] at ht
  cases ht

theorem isPrefixOf_append_of_le (ds : List Char) (h : sign.length ≤ cs.length) : sign.isPrefixOf (cs ++ ds) = sign.isPrefixOf cs := by
  rw [Bool.eq_iff_iff, List.isPrefixOf_iff_prefix, List.isPrefixOf_iff_prefix]
  exact ⟨fun hp => List.prefix_of_prefix_length_le hp (List.prefix_append ..) h, fun hp => hp.trans <| List.prefix_append ..⟩

namespace IsLines

theorem of_append (h : IsLines (w ++ cs)) (hw : '\n' ∉ w) : IsLines cs := by
  obtain hs | hs := List.suffix_or_suffix_of_suffix h (List.suffix_append w cs)
  case inl => exact hs
  case inr =>
    obtain rfl | rfl := List.suffix_cons_iff.mp hs |>.imp_right List.suffix_nil.mp
    case inl => exact List.suffix_rfl
    case inr =>
      rw [List.append_nil] at h
      exact (hw <| h.subset <| .head _).elim

theorem tail (h : IsLines (c :: cs)) (hc : c ≠ '\n') : IsLines cs :=
  of_append (w := [c]) h <| by simpa using hc.symm

theorem ne_nil (h : IsLines cs) : cs ≠ [] :=
  List.ne_nil_of_mem <| h.subset <| .head _

theorem drop (h : IsLines cs) : cs.drop n = [] ∨ IsLines (cs.drop n) := by
  obtain hs | hs := List.suffix_or_suffix_of_suffix h (List.drop_suffix n cs)
  case inl => exact .inr hs
  case inr =>
    obtain he | he := List.suffix_cons_iff.mp hs |>.imp_right List.suffix_nil.mp
    case inl => exact .inr <| he ▸ List.suffix_rfl
    case inr => exact .inl he

-- A line break that begins in lines ends there.
theorem isPrefix (h : IsLines cs) (hb : IsBreak sign) (hp : sign <+: cs ++ ds) : sign <+: cs := by
  obtain hl | hl := List.prefix_or_prefix_of_prefix hp (List.prefix_append cs ds)
  case inl => exact hl
  case inr =>
    obtain ⟨line, rfl, hn⟩ : ∃ line, sign = line ++ ['\n'] ∧ '\n' ∉ line := by
      obtain rfl | rfl := hb
      case inl => exact ⟨[], rfl, nofun⟩
      case inr => exact ⟨['\r'], rfl, by decide⟩
    obtain rfl | hl := List.prefix_concat_iff.mp hl
    case inl => exact List.prefix_rfl
    case inr => exact (hn <| hl.subset <| h.subset <| .head _).elim

theorem drop_takeWhile (h : IsLines cs) (hq : q '\n' = false) : IsLines (cs.drop (cs.takeWhile q).length) := by
  rw [Lexeme.drop_length_takeWhile]
  exact of_append (w := cs.takeWhile q) (by rwa [List.takeWhile_append_dropWhile]) (newline_not_mem_takeWhile hq)

end IsLines

namespace Sealed

theorem imp (h : Sealed cs ds) (hi : IsLines cs → IsLines w) : Sealed w ds :=
  h.imp_left hi

theorem tail (h : Sealed (c :: cs) ds) (hc : c ≠ '\n') : Sealed cs ds :=
  h.imp fun h => h.tail hc

theorem drop (h : Sealed cs ds) : cs.drop n = [] ∨ Sealed (cs.drop n) ds := by
  obtain h | h := h
  case inl => exact h.drop.imp_right .inl
  case inr => exact .inr (.inr h)

theorem of_nil (h : Sealed [] ds) : ∀ c ∈ ds.head?, c = '\r' ∨ c = '\n' :=
  h.resolve_left fun h => h.ne_nil rfl

theorem head?_append (h : Sealed cs ds) (hr : c ≠ '\r') (hn : c ≠ '\n') :
    (cs ++ ds).head? = some c ↔ cs.head? = some c := by
  cases cs
  case cons => rfl
  case nil =>
    simp only [List.nil_append, List.head?_nil, reduceCtorEq, iff_false]
    intro hc
    obtain rfl | rfl := h.of_nil c hc
    · exact hr rfl
    · exact hn rfl

theorem takeWhile_append (h : Sealed cs ds) (hr : q '\r' = false) (hn : q '\n' = false) :
    (cs ++ ds).takeWhile q = cs.takeWhile q := by
  rw [List.takeWhile_append]
  split
  case isFalse => rfl
  case isTrue hl =>
    have he := (List.takeWhile_prefix q).eq_of_length hl
    obtain h | h := h
    case inl => exact (newline_not_mem_takeWhile hn <| he.symm ▸ h.subset (.head _)).elim
    case inr =>
      cases ds
      case nil => simp [he]
      case cons d ds =>
        have hd : q d = false := by
          obtain rfl | rfl := h d rfl
          · exact hr
          · exact hn
        simp [he, hd]

theorem isPrefixOf_append (h : Sealed cs ds) (hr : '\r' ∉ sign) (hn : '\n' ∉ sign) :
    sign.isPrefixOf (cs ++ ds) = sign.isPrefixOf cs := by
  rw [Bool.eq_iff_iff, List.isPrefixOf_iff_prefix, List.isPrefixOf_iff_prefix]
  refine ⟨fun hp => ?_, fun hp => hp.trans <| List.prefix_append ..⟩
  obtain hl | ⟨more, rfl⟩ := List.prefix_or_prefix_of_prefix hp (List.prefix_append cs ds)
  case inl => exact hl
  case inr =>
    obtain h | h := h
    case inl => exact (hn <| List.mem_append_left _ <| h.subset <| .head _).elim
    case inr =>
      cases more
      case nil => simp
      case cons d more =>
        obtain ⟨rest, hd⟩ := (List.prefix_append_right_inj cs).mp hp
        obtain rfl | rfl := h d (by simp [← hd])
        · exact (hr <| by simp).elim
        · exact (hn <| by simp).elim

end Sealed

-- A length that is measured from the beginning of a text on, within its first line.
structure IsInline (measure : List Char → Nat) : Prop where
  append  : ∀ {cs ds}, Sealed cs ds → measure (cs ++ ds) = measure cs
  drop    : ∀ {cs}, IsLines cs → IsLines (cs.drop (measure cs))
  le      : ∀ cs, measure cs ≤ cs.length

namespace IsInline

variable {f g : List Char → Nat}

theorem drop_append (h : IsInline f) : (cs ++ ds).drop (f cs) = cs.drop (f cs) ++ ds :=
  List.drop_append_of_le_length (h.le cs)

theorem add (hf : IsInline f) (hg : IsInline g) : IsInline fun cs => f cs + g (cs.drop (f cs)) where
  append hc := by rw [hf.append hc, hf.drop_append, hg.append (hc.imp hf.drop)]
  drop hc   := by
    rw [← List.drop_drop]
    exact hg.drop (hf.drop hc)
  le cs     := by
    have hm := hf.le cs
    have hn := hg.le (cs.drop (f cs))
    rw [List.length_drop] at hn
    omega

theorem takeWhile (hr : q '\r' = false) (hn : q '\n' = false) : IsInline fun cs => (cs.takeWhile q).length where
  append hc := by rw [hc.takeWhile_append hr hn]
  drop hc   := hc.drop_takeWhile hn
  le _      := (List.takeWhile_prefix q).length_le

theorem zero : IsInline fun _ => 0 where
  append _  := rfl
  drop hc   := hc
  le _      := Nat.zero_le _

-- A first character that opens something is measured with what stands behind it, if that is there at all.
theorem of_cons (opens : Char → Prop) (holds : List Char → Prop) [DecidablePred opens] [DecidablePred holds]
    (hr : ¬opens '\r') (hn : ¬opens '\n') (hh : ∀ {cs ds}, Sealed cs ds → (holds (cs ++ ds) ↔ holds cs)) (hg : IsInline g)
    (hz : f [] = 0) (hf : ∀ c cs, f (c :: cs) = if opens c ∧ holds cs then 1 + g cs else 0) : IsInline f := by
  have ne_newline {c : Char} (hc : opens c) : c ≠ '\n' := fun he => hn (he ▸ hc)
  constructor <;> rintro (_ | ⟨c, cs⟩) <;> intros
  case append.nil ds h =>
    cases ds
    case nil => rfl
    case cons d ds =>
      have hd : ¬opens d := by obtain rfl | rfl := h.of_nil d rfl <;> assumption
      rw [List.nil_append, hf, if_neg (hd ·.left), hz]
  case append.cons ds h =>
    rw [List.cons_append, hf, hf]
    by_cases hc : opens c
    case neg => rw [if_neg (hc ·.left), if_neg (hc ·.left)]
    case pos => simp only [hh (h.tail <| ne_newline hc), hg.append (h.tail <| ne_newline hc)]
  case drop.nil h => exact (h.ne_nil rfl).elim
  case drop.cons h =>
    rw [hf]
    split
    case isTrue hc =>
      rw [Nat.add_comm, List.drop_succ_cons]
      exact hg.drop (h.tail <| ne_newline hc.left)
    case isFalse => exact h
  case le.nil => exact hz.le
  case le.cons =>
    have hl := hg.le cs
    rw [hf, List.length_cons]
    split <;> omega

end IsInline

end PyVerify.Token
