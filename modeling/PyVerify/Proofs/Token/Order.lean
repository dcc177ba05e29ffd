import Mathlib.Order.Hom.Basic
import Mathlib.Order.MinMax
import PyVerify.Proofs.Token.Lexical

namespace PyVerify

-- The positions of a text are looked at through a monotone function. Through the identity all of them are told
-- apart, and a constant one makes all of them the same: no token list is out of order then.
variable {f : ℕ →o ℕ}

namespace Span

theorem start_le_stop (z : Span) : f z.start ≤ f z.stop :=
  f.monotone <| Nat.le_add_right ..

@[simp] theorem map_start_join {a b : Span} : f (a.join b).start = min (f a.start) (f b.start) :=
  f.monotone.map_min

@[simp] theorem map_stop_join {a b : Span} : f (a.join b).stop = max (f a.stop) (f b.stop) := by
  rw [stop_join]
  exact f.monotone.map_max

theorem stop_between {start stop : Nat} (h : start ≤ stop) : (between start stop).stop = stop :=
  Nat.add_sub_of_le h

end Span

theorem utf8Length_append {cs ds : List Char} : utf8Length (cs ++ ds) = utf8Length cs + utf8Length ds := by
  induction cs
  case nil      => exact (Nat.zero_add _).symm
  case cons hi  => exact (congrArg _ hi).trans (Nat.add_assoc ..).symm

theorem utf8Length_le_of_suffix {cs ds : List Char} (h : cs <:+ ds) : utf8Length cs ≤ utf8Length ds := by
  obtain ⟨_, rfl⟩ := h
  exact utf8Length_append ▸ Nat.le_add_left ..

theorem utf8Length_le_of_prefix {cs ds : List Char} (h : cs <+: ds) : utf8Length cs ≤ utf8Length ds := by
  obtain ⟨_, rfl⟩ := h
  exact utf8Length_append ▸ Nat.le_add_right ..

namespace Token

-- A token stands behind a span. Several blocks may end at one margin, so a dedent need not be apart from what is
-- before it.
structure Follows (f : ℕ →o ℕ) (z : Span) (t : Token) : Prop where
  start : f z.start ≤ f t.span.start
  stop  : f z.stop ≤ f t.span.stop
  apart : t.kind ≠ .dedent → f z.stop ≤ f t.span.start

-- The tokens are in the order of the text.
def Ascend (f : ℕ →o ℕ) (tokens : List Token) : Prop :=
  tokens.Pairwise fun t u => u.Follows f t.span

theorem Follows.of_le {z : Span} {t : Token} (h : z.stop ≤ t.span.start) : t.Follows f z where
  start   := f.monotone <| (Nat.le_add_right ..).trans h
  stop    := f.monotone <| h.trans (Nat.le_add_right ..)
  apart _ := f.monotone h

theorem Ascend.stop_le_last {tokens : List Token} {t last : Token} (h : Ascend f tokens) (hl : tokens.getLast? = some last)
    (ht : t ∈ tokens) : f t.span.stop ≤ f last.span.stop := by
  obtain ⟨init, rfl⟩ := List.getLast?_eq_some_iff.mp hl
  obtain ht | ht := List.mem_append.mp ht
  case inl => exact ((List.pairwise_append.mp h).right.right t ht last (.head _)).stop
  case inr => rw [List.mem_singleton.mp ht]

theorem lastLine_suffix (text : List Char) : lastLine text <:+ text := by
  rw [lastLine, ← List.reverse_prefix, List.reverse_reverse]
  exact List.takeWhile_prefix _

-- The pieces of a text stand one behind the other.
theorem Lexeme.scan_prefix {cs : List Char} : (scan cs).flatMap Lexeme.text <+: cs := by
  fun_induction scan cs
  case case1 => exact List.prefix_rfl
  case case2 c cs _ n _ lexeme _ => simpa [lexeme] using List.take_prefix (n - 1) cs
  case case3 c cs _ n _ lexeme _ hi =>
    have h := (List.prefix_append_right_inj (cs.take (n - 1))).mpr hi
    rw [List.take_append_drop] at h
    simpa [lexeme] using h

-- The tokens stand in order between two positions.
structure Between (f : ℕ →o ℕ) (m n : Nat) (tokens : List Token) : Prop where
  le      : m ≤ n
  ascend  : Ascend f tokens
  start   : ∀ t ∈ tokens, m ≤ t.span.start
  stop    : ∀ t ∈ tokens, t.span.stop ≤ n

namespace Between

variable {k m n : Nat} {z : Span} {kind : Kind} {tokens more : List Token}

theorem nil (h : m ≤ n) : Between f m n [] :=
  ⟨h, .nil, nofun, nofun⟩

theorem single : Between f z.start z.stop [⟨kind, z⟩] where
  le      := Nat.le_add_right ..
  ascend  := List.pairwise_singleton ..
  start   := List.forall_mem_singleton.mpr le_rfl
  stop    := List.forall_mem_singleton.mpr le_rfl

theorem between (h : m ≤ n) : Between f m n [⟨kind, .between m n⟩] := by
  have hs : Between f m (Span.between m n).stop [⟨kind, .between m n⟩] := single (z := .between m n)
  rwa [Span.stop_between h] at hs

-- Several blocks end at one place.
theorem dedents {widths : List Nat} : Between f z.start z.stop (widths.map fun _ => ⟨.dedent, z⟩) where
  le      := Nat.le_add_right ..
  ascend  := List.pairwise_map.mpr <| List.pairwise_of_forall fun _ _ => ⟨le_rfl, le_rfl, fun h => (h rfl).elim⟩
  start   := List.forall_mem_map.mpr fun _ _ => le_rfl
  stop    := List.forall_mem_map.mpr fun _ _ => le_rfl

theorem append (h : Between f k m tokens) (hm : Between f m n more) : Between f k n (tokens ++ more) where
  le      := h.le.trans hm.le
  ascend  := List.pairwise_append.mpr ⟨h.ascend, hm.ascend, fun t ht u hu => .of_le <| (h.stop t ht).trans (hm.start u hu)⟩
  start   := List.forall_mem_append.mpr ⟨h.start, fun u hu => h.le.trans (hm.start u hu)⟩
  stop    := List.forall_mem_append.mpr ⟨fun t ht => (h.stop t ht).trans hm.le, hm.stop⟩

theorem after (hk : k ≤ m) (h : Between f m n tokens) : Between f k n tokens :=
  (nil hk).append h

end Between

namespace Layout

variable {s t : State} {l : Lexeme} {ls : List Lexeme} {tokens : List PyVerify.Token}

theorem State.start_le_offset : s.marginSpan.start ≤ s.offset :=
  Nat.sub_le ..

theorem State.stop_marginSpan : s.marginSpan.stop = s.offset :=
  Span.stop_between s.start_le_offset

theorem margin?_between {widths : List Nat} (h : margin? s = some (tokens, widths)) :
    Between f s.marginSpan.start s.offset tokens := by
  rw [← s.stop_marginSpan]
  simp only [margin?] at h
  split at h
  case isTrue =>
    cases h
    exact .single
  case isFalse =>
    split at h
    case isFalse => cases h
    case isTrue =>
      cases h
      exact .dedents

theorem finish_between : Between f s.marginSpan.start s.offset (finish s) := by
  refine .after s.start_le_offset <| .append (.append ?_ .dedents) .single
  split
  case isTrue   => exact .single (z := .point s.offset)
  case isFalse  => exact .nil le_rfl

-- What a piece of text adds stands between its margin and the margin behind it.
theorem step_between (h : step s l = .ok (tokens, t)) :
    Between f s.marginSpan.start t.marginSpan.start tokens ∧ t.offset = s.offset + utf8Length l.text := by
  simp only [step] at h
  split at h
  case h_1 =>
    cases h
    have hm := utf8Length_le_of_suffix (lastLine_suffix <| s.margin ++ l.text)
    rw [utf8Length_append] at hm
    refine ⟨.nil ?_, rfl⟩
    simp only [State.marginSpan, Span.between]
    omega
  case h_2 =>
    have hn : s.marginSpan.start ≤ s.offset + utf8Length l.text := s.start_le_offset.trans (Nat.le_add_right ..)
    split at h
    all_goals cases h
    case isTrue => exact ⟨.nil hn, rfl⟩
    case isFalse =>
      refine ⟨?_, rfl⟩
      split
      case isTrue   => exact .after s.start_le_offset <| .between <| Nat.le_add_right ..
      case isFalse  => exact .nil hn
  case h_3 k hk =>
    obtain ⟨⟨opened, widths⟩, ho, h⟩ := exists_ok_of_bind h
    obtain ⟨rfl, rfl⟩ := Prod.mk.inj (Except.ok.inj h)
    refine ⟨.append (m := s.offset) ?_ (.between <| Nat.le_add_right ..), rfl⟩
    split at ho
    case isTrue =>
      cases ho
      exact .nil s.start_le_offset
    case isFalse =>
      split at ho
      case h_1 hm =>
        cases ho
        exact margin?_between hm
      case h_2 => cases ho
  case h_4 =>
    obtain ⟨_, -, h⟩ := exists_ok_of_bind h
    cases h
  case h_5 => cases h

theorem run_between (h : run s ls = .ok tokens) :
    Between f s.marginSpan.start (s.offset + utf8Length (ls.flatMap Lexeme.text)) tokens := by
  induction ls generalizing s tokens
  case nil =>
    cases h
    exact finish_between
  case cons l ls hi =>
    obtain ⟨⟨first, t⟩, hs, h⟩ := exists_ok_of_bind h
    obtain ⟨rest, hr, h⟩ := exists_ok_of_bind h
    cases h
    obtain ⟨hf, ho⟩ := step_between hs
    rw [List.flatMap_cons, utf8Length_append, ← Nat.add_assoc, ← ho]
    exact hf.append (hi hr)

end Layout

-- The tokens of a text are in its order, and none of them reaches beyond its end.
theorem tokenize_between {text : List Char} {tokens : List Token} (h : tokenize text = .ok tokens) :
    Between f 0 (utf8Length text) tokens := by
  have ht := Layout.run_between (f := f) h
  refine ⟨Nat.zero_le _, ht.ascend, ht.start, fun t hm => (ht.stop t hm).trans ?_⟩
  simpa [Layout.State.initial] using utf8Length_le_of_prefix Lexeme.scan_prefix

end Token
end PyVerify
