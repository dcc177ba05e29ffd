import PyVerify.Proofs.Token.Layout

namespace PyVerify

namespace Token

-- The tokens that stand for a place in the layout take no text of their own.
def Kind.isSolid : Kind → Bool
  | indent | dedent | eof => false
  | _                     => true

-- What the stretch of text under a token looks like, with what stands around it.
def Kind.Marks (before inside after : List Char) : Kind → Prop
  | newline => IsBreak inside ∨ inside = [] ∧ after = []
  | indent  => inside = lastLine (before ++ inside) ∧ ∀ c ∈ inside, Lexeme.isBlank c
  | dedent  => (inside = lastLine (before ++ inside) ∧ ∀ c ∈ inside, Lexeme.isBlank c) ∨ inside = [] ∧ after = []
  | eof     => inside = [] ∧ after = []
  | k       => k.Spells inside

-- The text that no token stands for.
inductive Skipped (depth : Nat) (before : List Char) : List Char → List Char → Prop
  | blanks (h : ∀ c ∈ cs, Lexeme.isBlank c) : Skipped depth before cs after
  | comment (h : ∀ c ∈ cs, c ≠ '\r' ∧ c ≠ '\n') (ha : ∀ c ∈ after.head?, c = '\r' ∨ c = '\n') :
    Skipped depth before ('#' :: cs) after
  | joined (h : IsBreak cs) : Skipped depth before ('\\' :: cs) after
  | bracketed (h : IsBreak cs) (hd : 0 < depth) : Skipped depth before cs after
  | blankLine (h : IsBreak cs) (hl : IsBlankLine (lastLine before) (cs ++ after)) : Skipped depth before cs after

-- How many brackets the tokens up to a position leave open, behind some that are open already.
def depthAt (depth : Nat) (tokens : List PyVerify.Token) (position : Nat) : Nat :=
  (tokens.filter (·.span.stop ≤ position)).foldl (fun depth t => Layout.depthAfter depth t.kind) depth

-- A token stands for a stretch of the text.
def IsMarked (text : List Char) (t : PyVerify.Token) : Prop :=
  ∃ before inside after, text = before ++ (inside ++ after) ∧
    t.span = .between (utf8Length before) (utf8Length (before ++ inside)) ∧ t.kind.Marks before inside after

-- Nothing of a text is lost in its tokens.
structure Lossless (text : List Char) (tokens : List PyVerify.Token) : Prop where
  last    : ∃ init, tokens = init ++ [⟨.eof, .point (utf8Length text)⟩] ∧ ∀ t ∈ init, t.kind ≠ .eof
  marks   : ∀ t ∈ tokens, IsMarked text t
  apart   : (tokens.filter (·.kind.isSolid)).Pairwise fun t u => t.span.stop ≤ u.span.start
  covers  : ∀ n < utf8Length text, (∃ t ∈ tokens, t.kind.isSolid ∧ t.span.start ≤ n ∧ n < t.span.stop) ∨
    ∃ before inside after, text = before ++ (inside ++ after) ∧ utf8Length before ≤ n ∧ n < utf8Length (before ++ inside) ∧
      Skipped (depthAt 0 tokens (utf8Length before)) before inside after

variable {text cs done rest : List Char} {tokens more : List PyVerify.Token} {t : PyVerify.Token} {k : Kind}

theorem Kind.Spells.marks {before inside after : List Char} (h : k.Spells inside) : k.Marks before inside after := by
  cases k
  case newline | indent | dedent | eof => cases h
  all_goals exact h

theorem Kind.Spells.isSolid (h : k.Spells cs) : k.isSolid := by
  cases k
  case indent | dedent | eof => cases h
  all_goals rfl

theorem depthAt_of_lt {m n : Nat} (h : ∀ t ∈ tokens, n < t.span.stop) : depthAt m tokens n = m := by
  rw [depthAt, List.filter_eq_nil_iff.mpr fun t ht => by simpa using h t ht]
  rfl

theorem depthAt_append {m n : Nat} (h : ∀ t ∈ tokens, t.span.stop ≤ n) :
    depthAt m (tokens ++ more) n = depthAt (tokens.foldl (fun depth t => Layout.depthAfter depth t.kind) m) more n := by
  rw [depthAt, List.filter_append, List.filter_eq_self.mpr fun t ht => by simpa using h t ht, List.foldl_append]
  rfl

namespace Layout

variable {n : Nat} {s u : State} {p : Piece}

-- A margin is the beginning of its line.
theorem State.Behind.marked_margin (hb : s.Behind done (cs ++ rest)) (ho : s.lineOpen = false) (hr : Reads (.token k) cs rest)
    (hk : t.kind = .indent ∨ t.kind = .dedent) (hz : t.span = s.marginSpan) : IsMarked (done ++ (cs ++ rest)) t := by
  obtain ⟨before, hm⟩ := lastLine_suffix done
  rw [← hb.margin ho] at hm
  have hi : s.margin = lastLine (before ++ s.margin) ∧ ∀ c ∈ s.margin, Lexeme.isBlank c := by
    rw [hm]
    refine ⟨hb.margin ho, ?_⟩
    obtain ⟨c, cs, rfl⟩ := List.exists_cons_of_ne_nil hr.ne_nil
    exact hb.margin_blank ho hr.head_ne
  refine ⟨before, s.margin, cs ++ rest, by rw [← List.append_assoc before, hm], ?_, ?_⟩
  case refine_1 =>
    rw [hz, State.marginSpan, hm, hb.offset, ← hm, utf8Length_append, Nat.add_sub_cancel]
  case refine_2 =>
    obtain hk | hk := hk <;> rw [hk]
    case inl => exact hi
    case inr => exact .inl hi

namespace Step

theorem kind_ne (hr : Reads p cs rest) (h : Step s p cs tokens u) : ∀ t ∈ tokens, t.kind ≠ .eof := by
  have hk : ∀ {k}, p = .token k → k ≠ .eof := by
    rintro k rfl rfl
    exact hr.spells.not_isLayout rfl
  cases h
  case ended  => exact List.forall_mem_singleton.mpr nofun
  case inside => exact List.forall_mem_singleton.mpr (hk rfl)
  case opens ho =>
    refine List.forall_mem_append.mpr ⟨fun t ht => ?_, List.forall_mem_singleton.mpr (hk rfl)⟩
    obtain ht | ht := (ho.mem ht).left <;> rw [ht] <;> nofun
  all_goals nofun

-- A token ends where the text was being read when it was found.
theorem stop (h : Step s p cs tokens u) : ∀ t ∈ tokens, s.offset ≤ t.span.stop ∧ t.span.stop ≤ u.offset := by
  have hn : s.offset ≤ (Span.between s.offset (s.offset + utf8Length cs)).stop ∧
      (Span.between s.offset (s.offset + utf8Length cs)).stop ≤ s.offset + utf8Length cs := by
    rw [Span.stop_between <| Nat.le_add_right ..]
    exact ⟨Nat.le_add_right .., le_rfl⟩
  cases h
  case ended | inside => exact List.forall_mem_singleton.mpr hn
  case opens ho =>
    refine List.forall_mem_append.mpr ⟨fun t ht => ?_, List.forall_mem_singleton.mpr hn⟩
    rw [(ho.mem ht).right, s.stop_marginSpan]
    exact ⟨le_rfl, Nat.le_add_right ..⟩
  all_goals nofun

theorem marked (hb : s.Behind done (cs ++ rest)) (hr : Reads p cs rest) (h : Step s p cs tokens u) :
    ∀ t ∈ tokens, IsMarked (done ++ (cs ++ rest)) t := by
  have hn : ∀ {k : Kind}, k.Marks done cs rest → IsMarked (done ++ (cs ++ rest)) ⟨k, .between s.offset (s.offset + utf8Length cs)⟩ :=
    fun hk => ⟨done, cs, rest, rfl, by rw [hb.offset_append, hb.offset], hk⟩
  cases h
  case ended =>
    cases hr
    case lineBreak hc => exact List.forall_mem_singleton.mpr <| hn <| .inl hc
  case inside => exact List.forall_mem_singleton.mpr <| hn hr.spells.marks
  case opens ho ha =>
    refine List.forall_mem_append.mpr ⟨fun t ht => ?_, List.forall_mem_singleton.mpr <| hn hr.spells.marks⟩
    obtain ⟨hk, hz⟩ := ha.mem ht
    exact hb.marked_margin ho hr hk hz
  all_goals nofun

theorem covers (hb : s.Behind done (cs ++ rest)) (hr : Reads p cs rest) (h : Step s p cs tokens u) :
    (∃ t ∈ tokens, t.kind.isSolid ∧ t.span = .between s.offset u.offset) ∨ tokens = [] ∧ Skipped s.depth done cs rest := by
  cases h
  case ended  => exact .inl ⟨_, .head _, rfl, rfl⟩
  case inside => exact .inl ⟨_, .head _, hr.spells.isSolid, rfl⟩
  case opens  => exact .inl ⟨_, List.mem_append_right _ <| .head _, hr.spells.isSolid, rfl⟩
  case blank =>
    refine .inr ⟨rfl, ?_⟩
    cases hr
    case blanks hc      => exact .blanks hc
    case comment hc hr  => exact .comment hc hr
    case joined hc      => exact .joined hc
  case joined hd =>
    cases hr
    case lineBreak hc => exact .inr ⟨rfl, .bracketed hc hd⟩
  case skipped ho =>
    cases hr
    case lineBreak hc => exact .inr ⟨rfl, .blankLine hc <| hb.blank ho⟩

end Step

namespace Run

theorem stop (h : Run s rest tokens) : ∀ t ∈ tokens, s.offset ≤ t.span.stop := by
  induction h
  case finish => exact fun t ht => (mem_finish ht).right ▸ le_rfl
  case step hs _ hi =>
    refine List.forall_mem_append.mpr ⟨fun t ht => (hs.stop t ht).left, fun t ht => ?_⟩
    exact ((Nat.le_add_right ..).trans hs.offset.ge).trans (hi t ht)

theorem last (h : Run s rest tokens) :
    ∃ init, tokens = init ++ [⟨.eof, .point (s.offset + utf8Length rest)⟩] ∧ ∀ t ∈ init, t.kind ≠ .eof := by
  induction h
  case finish s =>
    refine ⟨_, rfl, ?_⟩
    simp only [List.forall_mem_append, List.forall_mem_map]
    refine ⟨?_, nofun⟩
    split <;> simp
  case step first t more hr hs _ hi =>
    obtain ⟨init, rfl, hn⟩ := hi
    refine ⟨first ++ init, ?_, List.forall_mem_append.mpr ⟨hs.kind_ne hr, hn⟩⟩
    rw [hs.offset, List.append_assoc, utf8Length_append, Nat.add_assoc]

theorem marked (h : Run s rest tokens) (hb : s.Behind done rest) : ∀ t ∈ tokens, IsMarked (done ++ rest) t := by
  induction h generalizing done
  case finish =>
    intro t ht
    obtain ⟨hk, hz⟩ := mem_finish ht
    refine ⟨done, [], [], rfl, ?_, ?_⟩
    case refine_1 => rw [hz, hb.offset, List.append_nil, Span.point, Span.between, Nat.sub_self]
    case refine_2 =>
      obtain hk | hk | hk := hk <;> rw [hk]
      case inl | inr.inl  => exact .inr ⟨rfl, rfl⟩
      case inr.inr        => exact ⟨rfl, rfl⟩
  case step hr hs _ hi =>
    refine List.forall_mem_append.mpr ⟨hs.marked hb hr, ?_⟩
    rw [← List.append_assoc]
    exact hi (hb.step hr hs)

-- A skipped stretch belongs to the piece that is read there, and the tokens up to it are those that were found before.
theorem covers (h : Run s rest tokens) (hb : s.Behind done rest) (hm : utf8Length done ≤ n) (hn : n < utf8Length (done ++ rest)) :
    (∃ t ∈ tokens, t.kind.isSolid ∧ t.span.start ≤ n ∧ n < t.span.stop) ∨
      ∃ before inside after, done ++ rest = before ++ (inside ++ after) ∧
        (utf8Length done ≤ utf8Length before ∧ utf8Length before ≤ n ∧ n < utf8Length (before ++ inside)) ∧
          Skipped (depthAt s.depth tokens (utf8Length before)) before inside after := by
  induction h generalizing done
  case finish =>
    rw [List.append_nil] at hn
    cases hm.not_gt hn
  case step cs rest s first u more hr hs h hi =>
    have ho : u.offset = utf8Length (done ++ cs) := hs.offset.trans hb.offset_append
    by_cases hc : n < utf8Length (done ++ cs)
    case pos =>
      obtain ⟨t, ht, hk, hz⟩ | ⟨rfl, hk⟩ := hs.covers hb hr
      case inl =>
        refine .inl ⟨t, List.mem_append_left _ ht, hk, ?_⟩
        rw [hz, Span.stop_between <| (Nat.le_add_right ..).trans hs.offset.ge, ho, Span.between, hb.offset]
        exact ⟨hm, hc⟩
      case inr =>
        refine .inr ⟨done, cs, rest, rfl, ⟨le_rfl, hm, hc⟩, ?_⟩
        rwa [List.nil_append, depthAt_of_lt fun t ht => hm.trans_lt <| hc.trans_le <| ho ▸ h.stop t ht]
    case neg =>
      have hc := Nat.le_of_not_lt hc
      rw [← List.append_assoc] at hn ⊢
      obtain ⟨t, ht, hk⟩ | ⟨before, inside, after, he, hl, hk⟩ := hi (hb.step hr hs) hc hn
      case inl => exact .inl ⟨t, List.mem_append_right _ ht, hk⟩
      case inr =>
        have hd : utf8Length done ≤ utf8Length (done ++ cs) := utf8Length_le_of_prefix (List.prefix_append ..)
        refine .inr ⟨before, inside, after, he, ⟨hd.trans hl.left, hl.right⟩, ?_⟩
        rwa [depthAt_append fun t ht => (hs.stop t ht).right.trans <| ho.trans_le hl.left, ← hs.depth]

end Run

end Layout

-- A bracket over two lines, a comment, a blank line, a joined line and a text over two lines.
def winding : List Char :=
  "if (a,\n b): # c\n\n\tx = b'é' + \\\n\"\"\"z\n\"\"\"".toList

end Token
end PyVerify
