import PyVerify.Proofs.Parser.Tracks.Taken
import PyVerify.Proofs.Token.Append

namespace PyVerify

open Token (Kind Keyword Mark Finished)

variable {c d : Cursor} {t u : Token} {ts us : List Token} {k : Kind} {ks more : List Kind} {m n : Nat}

theorem Token.Kind.not_isLayout_of_isClause (h : k.isClause) : k.isLayout = false := by
  cases k <;> first | rfl | cases h

@[simp] theorem Token.Kind.recast_forget : recast .forget = id := by
  funext k
  cases k <;> rfl

theorem Cursor.kind?_eq (c : Cursor) : c.kind? = (c.rest.map Token.kind).head? :=
  List.head?_map.symm

namespace Token.Finished

theorem behind (h : Finished n (k :: ks)) (hb : m + ks.count .indent = ks.count .dedent) : Finished m ks where
  blocks  := hb
  last    := by
    cases ks
    case nil  => nofun
    case cons => exact List.getLast?_cons_cons ▸ h.last
  within  := fun he => h.within <| .tail _ he

theorem ordinary (h : Finished n (k :: ks)) (hi : k ≠ .indent) (hd : k ≠ .dedent) : Finished n ks :=
  h.behind <| by simpa [hi, hd, List.count_cons] using h.blocks

theorem indent (h : Finished n (.indent :: ks)) : Finished (n + 1) ks := by
  have hb := h.blocks
  simp only [List.count_cons_self, List.count_cons_of_ne (show Kind.indent ≠ .dedent by nofun)] at hb
  exact h.behind <| by omega

theorem dedent (h : Finished (n + 1) (.dedent :: ks)) : Finished n ks := by
  have hb := h.blocks
  simp only [List.count_cons_self, List.count_cons_of_ne (show Kind.dedent ≠ .indent by nofun)] at hb
  exact h.behind <| by omega

-- A line goes on behind what does not end it.
theorem ne_nil (h : Finished n (k :: ks)) (hk : ¬k.isLayout) : ks ≠ [] := by
  rintro rfl
  exact hk <| h.last k rfl

-- The next line is the same, whatever stands behind the last one.
theorem takeWhile_append (h : Finished n ks) (hn : ks ≠ []) :
    (ks ++ more).takeWhile (fun k => !k.isLayout) = ks.takeWhile fun k => !k.isLayout := by
  rw [List.takeWhile_append, if_neg fun hl => ?_]
  have hk := h.last _ (List.getLast?_eq_some_getLast hn)
  have hm : ks.getLast hn ∈ ks.takeWhile fun k => !k.isLayout := by
    rw [(List.takeWhile_prefix _).eq_of_length hl]
    exact List.getLast_mem hn
  have ht := List.all_eq_true.mp List.all_takeWhile _ hm
  simp [hk] at ht

end Token.Finished

-- The first token list ends where the second one goes on. Up to there they are the same, and lines and blocks have ended.
structure Splice (more : List Kind) (n : Nat) (c d : Cursor) : Prop where
  seam    : ∃ ks, c.rest.map Token.kind = ks ++ [.eof] ∧ d.rest.map Token.kind = ks ++ more ∧ Finished n ks
  size    : c.size ≤ d.size
  bounded : c.rest.length ≤ c.size ∧ d.rest.length ≤ d.size

theorem Kin.forget (h : t.kind = u.kind) : Kin .forget .forget t u :=
  ⟨rfl, by rw [h], fun _ _ _ _ _ h => h⟩

namespace Splice

theorem kind?_eq (h : Splice more n c d) (hk : c.kind? ≠ some .eof) : d.kind? = c.kind? := by
  obtain ⟨_ | ⟨k, ks⟩, hc, hd, -⟩ := h.seam
  case nil => exact (hk <| by rw [c.kind?_eq, hc]; rfl).elim
  case cons =>
    rw [c.kind?_eq, d.kind?_eq, hc, hd]
    rfl

theorem kind?_ne_none (h : Splice more n c d) : c.kind? ≠ none := by
  obtain ⟨ks, hc, -⟩ := h.seam
  rw [c.kind?_eq, hc]
  simp

theorem heads (h : Splice more n c d) (hk : c.kind? ≠ some .eof) : Heads .forget .forget c d := by
  have hd := h.kind?_eq hk
  unfold Cursor.kind? at hd
  unfold Heads
  cases hc : c.rest.head? <;> cases hd' : d.rest.head? <;> rw [hc, hd'] at hd
  case none.none => exact .none
  case some.some => exact .some <| .forget (Option.some.inj hd).symm
  all_goals cases hd

-- At the end of the first list no block is open.
theorem ended (h : Splice more n c d) (hk : c.kind? = some .eof) : n = 0 ∧ d.rest.map Token.kind = more := by
  obtain ⟨_ | ⟨k, ks⟩, hc, hd, hf⟩ := h.seam
  case nil => exact ⟨Nat.add_eq_zero_iff.mp hf.blocks |>.left, hd⟩
  case cons =>
    rw [c.kind?_eq, hc] at hk
    cases hk
    exact (hf.within <| .head _).elim

theorem behind (h : Splice more n c d) (hc : c.rest = t :: ts) (hd : d.rest = u :: us) (hk : t.kind ≠ .eof)
    (hf : ∀ ks, Finished n (t.kind :: ks) → Finished m ks) : Splice more m (c.behind t ts) (d.behind u us) := by
  obtain ⟨⟨ks, hs, hs', hn⟩, hz, hb⟩ := h
  rw [hc, hd] at hb
  rw [hc] at hs
  rw [hd] at hs'
  cases ks
  case nil => exact (hk (List.cons.inj hs).left).elim
  case cons =>
    obtain ⟨rfl, ht⟩ := List.cons.inj hs
    exact ⟨⟨_, ht, (List.cons.inj hs').right, hf _ hn⟩, hz, Nat.le_of_succ_le hb.left, Nat.le_of_succ_le hb.right⟩

-- The line goes on.
theorem inside (h : Splice more n c d) (hc : c.rest = t :: ts) (hd : d.rest = u :: us) (hk : t.kind.isLayout = false) :
    Splice more n (c.behind t ts) (d.behind u us) ∧ (c.behind t ts).kind? ≠ some .eof := by
  have hn {k : Kind} (hl : k.isLayout) : t.kind ≠ k := fun he => by rw [he, hl] at hk; cases hk
  refine ⟨h.behind hc hd (hn rfl) fun ks hf => hf.ordinary (hn rfl) (hn rfl), fun he => ?_⟩
  obtain ⟨_ | ⟨k, ks⟩, hs, -, hf⟩ := h.seam <;> rw [hc] at hs
  case nil => exact hn rfl (List.cons.inj hs).left
  case cons =>
    obtain ⟨rfl, ht⟩ := List.cons.inj hs
    obtain ⟨l, ls, rfl⟩ := List.exists_cons_of_ne_nil <| hf.ne_nil (by simp [hk])
    obtain rfl : l = .eof := by
      rw [Cursor.kind?_eq] at he
      exact Option.some.inj <| (congrArg List.head? ht).symm.trans he
    exact hf.within <| .tail _ <| .head _

theorem words (h : Splice more n c d) (hk : c.kind? ≠ some .eof) :
    ((Token.line c.rest).map fun t => t.kind.recast .forget) = (Token.line d.rest).map fun t => t.kind.recast .forget := by
  obtain ⟨ks, hc, hd, hf⟩ := h.seam
  have hn : ks ≠ [] := by
    rintro rfl
    exact hk <| by rw [c.kind?_eq, hc]; rfl
  have hl (ts : List Token) : ((Token.line ts).map fun t => t.kind.recast .forget) = (ts.map Token.kind).takeWhile fun k => !k.isLayout := by
    rw [List.takeWhile_map]
    simp [Token.line, Function.comp_def]
  rw [hl, hl, hc, hd, hf.takeWhile_append hn, hf.takeWhile_append hn]

end Splice

-- Within lines of the first token list.
def Bridge.splice (more : List Kind) (n : Nat) : Bridge .forget .forget where
  rel _ _ c d := Splice more n c d ∧ c.kind? ≠ some .eof
  head        := fun ⟨h, hk⟩ => h.heads hk
  step        := fun ⟨h, _⟩ hc hd hg => h.inside hc hd hg.not_isLayout
  loosen      := id
  previous    := fun _ => rfl
  last        := fun _ => rfl
  size        := fun ⟨h, _⟩ => h.size
  bounded     := fun ⟨h, _⟩ => h.bounded

def Frame.splice (hm : ∀ k ∈ more.head?, k.isClause = false ∧ k ≠ .newline ∧ k ≠ .indent) : Frame .forget .forget where
  line        := .splice more
  block       := Splice more
  words       := fun ⟨h, hk⟩ => h.words hk
  newline     := fun ⟨h, _⟩ hc hd hk => h.behind hc hd (hk ▸ nofun) fun _ hf => hf.ordinary (hk ▸ nofun) (hk ▸ nofun)
  stop        := fun ⟨h, _⟩ _ _ => h
  enter       := fun h hk => ⟨h, hk⟩
  ahead {n c d} h := by
    by_cases hk : c.kind? = some .eof
    case neg => exact .inl (h.heads hk)
    case pos =>
      obtain ⟨hn, hd⟩ := h.ended hk
      rw [d.kind?_eq, hd]
      exact .inr ⟨hn, hk, hm⟩
  clause      := fun h hc hd hk => h.inside hc hd (Kind.not_isLayout_of_isClause hk)
  skip        := fun h hc hd hk => h.behind hc hd (hk ▸ nofun) fun _ hf => hf.ordinary (hk ▸ nofun) (hk ▸ nofun)
  indent      := fun h hc hd hk => h.behind hc hd (hk ▸ nofun) fun _ hf => (hk ▸ hf).indent
  dedent      := fun h hc hd hk => h.behind hc hd (hk ▸ nofun) fun _ hf => (hk ▸ hf).dedent
  eof         := fun h hk => nomatch (h.ended hk).left
  previous    := fun _ => rfl
  size        := Splice.size

end PyVerify
