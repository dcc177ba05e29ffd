import Mathlib.Data.List.Basic
import PyVerify.Proofs.Parser.Tracks.Module

namespace PyVerify

open Token (Kind Keyword Mark)
open Token.Layout (depthAfter)

variable {m n i k : Nat} {a b : Bool} {c d : Cursor} {t : Token} {v w ts : List Token} {l : Kind}

namespace Token.Kind

theorem Goes.depthAfter_eq (h : l.Goes m a n b) : depthAfter m l = n := by
  obtain ⟨h⟩ | _ := h
  case name => rfl
  case turn =>
    cases h
    case plain h => simp_all [isPlain, depthAfter]
    case opens h => simp [depthAfter, h]
    case closes h =>
      cases l
      case mark s => cases s <;> first | rfl | cases h
      all_goals cases h
    case colon => rfl
    case clause h => cases l <;> first | rfl | cases h

theorem Goes.isClause_imp (h : l.Goes m a n b) (hl : l.isClause) : a = true := by
  obtain ⟨h⟩ | _ := h
  case name => cases hl
  case turn =>
    cases h
    case plain h => simp_all [isPlain]
    case opens h | closes h => cases l <;> first | cases h | cases hl
    case colon => cases hl
    case clause h => rfl

end Token.Kind

-- Tokens that leave so many brackets open and do not end the text.
structure Leaves (m : Nat) (w : List Token) : Prop where
  depth   : w.foldl (fun depth t => depthAfter depth t.kind) 0 = m
  within  : ∀ t ∈ w, t.kind ≠ .eof

-- The tokens of a statement; there are some where that is known.
structure Taken (m : Nat) (a : Bool) (w : List Token) : Prop extends Leaves m w where
  some  : a = true → w ≠ []
  head  : ∀ t ∈ w.head?, t.kind.isClause = false

theorem Leaves.append (hv : Leaves 0 v) (hw : Leaves m w) : Leaves m (v ++ w) where
  depth   := by rw [List.foldl_append, hv.depth, hw.depth]
  within  := List.forall_mem_append.mpr ⟨hv.within, hw.within⟩

namespace Taken

theorem nil : Taken 0 false [] :=
  ⟨⟨rfl, nofun⟩, nofun, nofun⟩

theorem concat (h : Taken m a w) (hd : depthAfter m t.kind = n) (he : t.kind ≠ .eof) (hc : t.kind.isClause → a = true) :
    Taken n b (w ++ [t]) where
  depth   := by rw [List.foldl_append, h.depth, ← hd]; rfl
  within  := List.forall_mem_append.mpr ⟨h.within, List.forall_mem_singleton.mpr he⟩
  some _  := by simp
  head    := by
    cases w
    case cons => exact h.head
    case nil =>
      rintro _ ⟨⟩
      exact Bool.eq_false_iff.mpr fun ht => h.some (hc ht) rfl

theorem layout (h : Taken 0 a w) (hl : t.kind.isLayout) (he : t.kind ≠ .eof) : Taken 0 true (w ++ [t]) := by
  refine h.concat ?_ he fun hc => ?_ <;> generalize t.kind = k at *
  case refine_1 => cases k <;> first | rfl | cases hl
  case refine_2 => cases k <;> first | cases hc | cases hl

end Taken

theorem gathers_taken : Gathers Taken where
  step h hg := h.concat hg.depthAfter_eq (fun he => by have hl := hg.not_isLayout; rw [he] at hl; cases hl) hg.isClause_imp
  loosen h  := { h with some := nofun }

theorem Bridge.alone_layout {whole us : List Token} {u : Token} (h : (Bridge.alone gathers_taken whole).rel 0 a c d) (hc : c.rest = t :: ts)
    (hd : d.rest = u :: us) (hl : t.kind.isLayout) (he : t.kind ≠ .eof) :
    (Bridge.alone gathers_taken whole).rel 0 true (c.behind t ts) (d.behind u us) := by
  obtain ⟨rfl, hb, w, rfl, hw⟩ := h
  cases hc.symm.trans hd
  rw [hc] at hb
  exact ⟨rfl, Nat.le_of_succ_le hb, w ++ [t], by simp [Cursor.behind, hc], hw.layout hl he⟩

-- A statement at the side of itself, with what it took.
def Frame.alone (whole : List Token) : Frame .keep .keep where
  line _    := .alone gathers_taken whole
  block _   := (Bridge.alone gathers_taken whole).rel 0 true
  words     := fun h => by rw [h.left]
  newline   := fun h hc hd hk => Bridge.alone_layout h hc hd (hk ▸ rfl) (hk ▸ nofun)
  stop      := fun h _ _ => h
  enter     := fun h _ => (Bridge.alone gathers_taken whole).loosen h
  ahead     := fun h => .inl <| h.left ▸ .refl _
  clause    := fun h hc hd hk => (Bridge.alone gathers_taken whole).step h hc hd <| .turn <| .clause hk
  skip      := fun h hc hd hk => Bridge.alone_layout h hc hd (hk ▸ rfl) (hk ▸ nofun)
  indent    := fun h hc hd hk => Bridge.alone_layout h hc hd (hk ▸ rfl) (hk ▸ nofun)
  dedent    := fun h hc hd hk => Bridge.alone_layout h hc hd (hk ▸ rfl) (hk ▸ nofun)
  eof       := fun h _ => h
  previous  := fun h => by rw [h.left]
  size      := fun h => by rw [h.left]

namespace Parser

theorem stmt_taken (hi : 1 < i) {ss : List Stmt} (h : stmt (Below.ofDepth i) k c = .ok (ss, d)) (hc : c.rest.length ≤ c.size) :
    d.rest.length ≤ d.size ∧ ∃ w, c.rest = w ++ d.rest ∧ Taken 0 true w := by
  have hs := tracks_stmt (F := .alone c.rest) (n := 0) hi le_rfl (Nat.le_refl k) c c ⟨rfl, hc, [], rfl, .nil⟩ ss d h
  obtain ⟨_, _, -, -, -, hd⟩ := hs
  exact hd

-- Newlines between statements.
theorem repeatUpTo_newlines {us : List Unit} (h : repeatUpTo (do if ← accept .newline then return some () else return none) n c = .ok (us, d))
    (hc : c.rest.length ≤ c.size) : d.rest.length ≤ d.size ∧ ∃ w, c.rest = w ++ d.rest ∧ Leaves 0 w := by
  induction n generalizing c us
  case zero => cases h
  case succ n hi =>
    obtain ⟨o, e, hs, h⟩ := ok_of_bind h
    by_cases hk : c.kind? = some .newline
    case neg =>
      rw [Tracks.bind_eq (Tracks.accept_eq_false hk)] at hs
      cases hs
      cases h
      exact ⟨hc, [], rfl, rfl, nofun⟩
    case pos =>
      obtain ⟨t, ts, hr, hk⟩ := Cursor.exists_of_kind? hk
      rw [Tracks.bind_eq (Tracks.accept_eq_true hr hk)] at hs
      cases hs
      obtain ⟨_, _, h, he⟩ := ok_of_bind h
      cases he
      rw [hr] at hc
      obtain ⟨hd, w, rfl, hw⟩ := hi h (Nat.le_of_succ_le hc)
      have hn : Leaves 0 [t] := ⟨by rw [List.foldl_cons, hk]; rfl, List.forall_mem_singleton.mpr (hk ▸ nofun)⟩
      exact ⟨hd, t :: w, hr, hn.append hw⟩

theorem skipNewlines_leaves {u : Unit} (h : skipNewlines c = .ok (u, d)) (hc : c.rest.length ≤ c.size) :
    d.rest.length ≤ d.size ∧ ∃ w, c.rest = w ++ d.rest ∧ Leaves 0 w := by
  obtain ⟨_, _, h, he⟩ := ok_of_bind h
  cases he
  exact repeatUpTo_newlines h hc

theorem skipNewlines_eq (h : c.kind? ≠ some .newline) : skipNewlines c = .ok ((), c) := by
  have hs : (do if ← accept .newline then return some () else return none : Parser (Option Unit)) c = .ok (none, c) :=
    Tracks.bind_eq (Tracks.accept_eq_false h)
  have hr : repeatUpTo (do if ← accept .newline then return some () else return none) (c.size + 1) c = .ok ([], c) := by
    rw [repeatUpTo, Tracks.bind_eq hs]
    rfl
  exact Tracks.bind_eq hr

theorem moduleItem_taken (hi : 1 < i) {o : Option (List Stmt)} (h : moduleItem (stmt (Below.ofDepth i) k) c = .ok (o, d))
    (hc : c.rest.length ≤ c.size) : d.rest.length ≤ d.size ∧ (∃ w, c.rest = w ++ d.rest ∧ Leaves 0 w ∧ (o.isSome → w ≠ [])) ∧
      (o = none → d.kind? = none ∨ d.kind? = some .eof) := by
  obtain ⟨e, hs, h⟩ := moduleItem_eq_ok_iff.mp h
  obtain ⟨he, w, hw, hl⟩ := skipNewlines_leaves hs hc
  obtain ⟨rfl, rfl, hk⟩ | ⟨ss, l, rfl, h, -⟩ := h
  case inl => exact ⟨he, ⟨w, hw, hl, nofun⟩, fun _ => hk⟩
  case inr =>
    obtain ⟨hd, v, hv, ht⟩ := stmt_taken hi h he
    refine ⟨hd, ⟨w ++ v, by rw [hw, hv, List.append_assoc], hl.append ht.toLeaves, fun _ => ?_⟩, nofun⟩
    simp [ht.some rfl]

theorem moduleItems_taken (hi : 1 < i) {ss : List (List Stmt)} (h : repeatUpTo (moduleItem (stmt (Below.ofDepth i) k)) n c = .ok (ss, d))
    (hc : c.rest.length ≤ c.size) :
    (∃ w, c.rest = w ++ d.rest ∧ Leaves 0 w ∧ ss.length ≤ w.length) ∧ (d.kind? = none ∨ d.kind? = some .eof) := by
  induction n generalizing c ss
  case zero => cases h
  case succ n hn =>
    obtain ⟨o, e, hm, h⟩ := ok_of_bind h
    obtain ⟨he, ⟨w, hw, hl, hs⟩, ho⟩ := moduleItem_taken hi hm hc
    cases o
    case none =>
      cases h
      exact ⟨⟨w, hw, hl, Nat.zero_le _⟩, ho rfl⟩
    case some =>
      obtain ⟨ss', d', hr, h⟩ := ok_of_bind h
      cases h
      obtain ⟨⟨v, hv, hl', hs'⟩, ho⟩ := hn hr he
      refine ⟨⟨w ++ v, by rw [hw, hv, List.append_assoc], hl.append hl', ?_⟩, ho⟩
      have hp := List.length_pos_iff.mpr (hs rfl)
      rw [List.length_append, List.length_cons]
      omega

-- A module is read up to the end of its text, and leaves no bracket open there.
theorem moduleItems_level (hi : 1 < i) {ss : List (List Stmt)} (h : repeatUpTo (moduleItem (stmt (Below.ofDepth i) k)) n c = .ok (ss, d))
    (hc : c.rest.length ≤ c.size) {ks : List Kind} (hk : c.rest.map Token.kind = ks ++ [.eof]) (he : .eof ∉ ks) :
    ss.length ≤ ks.length ∧ c.rest.foldl (fun depth t => depthAfter depth t.kind) 0 = 0 := by
  obtain ⟨⟨w, hw, hl, hs⟩, hd⟩ := moduleItems_taken hi h hc
  have hn : .eof ∉ w.map Token.kind := by simpa using hl.within
  obtain ⟨rfl, rs, hr, hd⟩ : ks = w.map Token.kind ∧ ∃ t, d.rest = [t] ∧ t.kind = .eof := by
    rw [hw, List.map_append] at hk
    unfold Cursor.kind? at hd
    cases hr : d.rest <;> rw [hr] at hk hd
    case nil =>
      rw [List.map_nil, List.append_nil] at hk
      exact (hn <| hk ▸ List.mem_concat_self).elim
    case cons t rs =>
      have ht : t.kind = .eof := by simpa using hd
      rw [List.map_cons, ht] at hk
      obtain ⟨hk, -, hr⟩ := (List.append_cons_inj_of_notMem he List.not_mem_nil).mp hk.symm
      exact ⟨hk, t, by rw [List.map_eq_nil_iff.mp hr.symm], ht⟩
  refine ⟨by rwa [List.length_map], ?_⟩
  rw [hw, List.foldl_append, hl.depth, hr, List.foldl_cons, hd]
  rfl

-- No statement begins with a clause of another one.
theorem moduleItems_head (hi : 1 < i) {ss : List (List Stmt)} (h : repeatUpTo (moduleItem (stmt (Below.ofDepth i) k)) n c = .ok (ss, d))
    (hc : c.rest.length ≤ c.size) (hn : c.kind? ≠ some .newline) : ∀ l ∈ c.kind?, l.isClause = false ∧ l ≠ .indent := by
  cases n
  case zero => cases h
  case succ n =>
    obtain ⟨o, e, hm, -⟩ := ok_of_bind h
    obtain ⟨e', hs, hm⟩ := moduleItem_eq_ok_iff.mp hm
    cases (skipNewlines_eq hn).symm.trans hs
    obtain ⟨-, -, hk | hk⟩ | ⟨ss, l, -, hp, hk, he, hi'⟩ := hm
    case inl.inl => simp [hk]
    case inl.inr =>
      rw [hk]
      rintro _ ⟨⟩
      exact ⟨rfl, nofun⟩
    case inr =>
      obtain ⟨-, w, hw, ht⟩ := stmt_taken hi hp hc
      obtain ⟨t, v, rfl⟩ := List.exists_cons_of_ne_nil (ht.some rfl)
      have hl : l = t.kind := by simpa [Cursor.kind?, hw] using hk.symm
      rw [hk]
      rintro _ ⟨⟩
      exact ⟨hl ▸ ht.head t rfl, hi'⟩

end Parser
end PyVerify
