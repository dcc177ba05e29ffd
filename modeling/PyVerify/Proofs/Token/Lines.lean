import PyVerify.Proofs.Token.Layout

namespace PyVerify

variable {cs ds : List Char}

theorem takeBytes?_append : takeBytes? (utf8Length cs) (cs ++ ds) = some cs := by
  induction cs
  case nil => simp [utf8Length, takeBytes?]
  case cons c cs hi =>
    obtain ⟨n, hn⟩ := Nat.exists_eq_add_one.mpr <| Nat.add_pos_left c.utf8Size_pos (utf8Length cs)
    change takeBytes? (c.utf8Size + utf8Length cs) (c :: (cs ++ ds)) = _
    have hs : n + 1 - c.utf8Size = utf8Length cs := by omega
    rw [hn, takeBytes?, if_pos (by omega), hs, hi]
    rfl

-- A list is read item by item, each of them allowed by what the items in front of it led to.
def Along {α σ : Type} (next : σ → α → σ) (allows : σ → α → Prop) (s : σ) (items : List α) : Prop :=
  ∀ init a, init ++ [a] <+: items → allows (init.foldl next s) a

namespace Along

variable {α σ : Type} {next : σ → α → σ} {allows : σ → α → Prop} {s : σ} {a : α} {as bs : List α}

theorem nil : Along next allows s [] := by
  intro init a h
  simp at h

theorem cons (ha : allows s a) (h : Along next allows (next s a) as) : Along next allows s (a :: as) := by
  intro init b hp
  cases init
  case nil =>
    obtain ⟨rfl, -⟩ := List.cons_prefix_cons.mp hp
    exact ha
  case cons =>
    obtain ⟨rfl, ht⟩ := List.cons_prefix_cons.mp hp
    exact h _ b ht

theorem append (ha : Along next allows s as) (hb : Along next allows (as.foldl next s) bs) : Along next allows s (as ++ bs) := by
  induction as generalizing s
  case nil => exact hb
  case cons a as hi =>
    refine .cons (ha [] a (List.prefix_append ..)) (hi ?_ hb)
    intro init b hp
    exact ha (a :: init) b (List.cons_prefix_cons.mpr ⟨rfl, hp⟩)

end Along

namespace Token

-- A logical line: the layout of its margin, the tokens on it, and its end.
structure Line where
  margin  : List PyVerify.Token
  first   : PyVerify.Token
  more    : List PyVerify.Token
  stop    : PyVerify.Token

-- Each block is wider than the one around it, and the text around all of them has no margin.
def Nested (widths : List Nat) : Prop :=
  (widths ++ [0]).Pairwise (· > ·)

namespace Line

def tokens (l : Line) : List PyVerify.Token :=
  l.margin ++ l.first :: (l.more ++ [l.stop])

-- The width of what stands in front of the first token on its line of the text.
def width (text : List Char) (l : Line) : Nat :=
  marginWidth <| lastLine <| (takeBytes? l.first.span.start text).getD text

-- The widths of the blocks that are open on the line, the innermost first.
def opened (text : List Char) (widths : List Nat) (l : Line) : List Nat :=
  if l.margin.any (·.kind = .indent) then l.width text :: widths else widths.drop l.margin.length

-- The line is in the innermost open block.
def Fits (text : List Char) (widths : List Nat) (l : Line) : Prop :=
  Nested (l.opened text widths) ∧ (l.opened text widths).headD 0 = l.width text

structure IsShaped (l : Line) : Prop where
  margin  : (∃ t, l.margin = [t] ∧ t.kind = .indent) ∨ ∀ t ∈ l.margin, t.kind = .dedent
  first   : ¬l.first.kind.isLayout
  more    : ∀ t ∈ l.more, ¬t.kind.isLayout
  stop    : l.stop.kind = .newline

end Line

-- Lines fit behind each other into the open blocks, and what is open behind the last one ends with the text.
def Laid (text : List Char) (widths : List Nat) (tokens : List PyVerify.Token) : Prop :=
  ∃ lines, tokens = lines.flatMap Line.tokens ++
      ((lines.foldl (Line.opened text) widths).map fun _ => ⟨.dedent, .point (utf8Length text)⟩) ++ [⟨.eof, .point (utf8Length text)⟩] ∧
    (∀ l ∈ lines, l.IsShaped) ∧ Along (Line.opened text) (Line.Fits text) widths lines

-- Of some open blocks, none is closed that is not open.
def Balanced (m n : Nat) (tokens : List PyVerify.Token) : Prop :=
  (∀ init, init <+: tokens → init.countP (·.kind = .dedent) ≤ m + init.countP (·.kind = .indent)) ∧
    n + tokens.countP (·.kind = .dedent) = m + tokens.countP (·.kind = .indent)

-- No line or block ends in a bracket, but for those that end with the text.
def Layout.Calm (stop : Nat) : Nat → List PyVerify.Token → Prop :=
  Along (fun depth t => depthAfter depth t.kind) fun depth t => t.kind.isLayout → t.span ≠ .point stop → depth = 0

-- The layout of the tokens of a text.
structure WellLaid (text : List Char) (tokens : List PyVerify.Token) : Prop where
  lines     : Laid text [] tokens
  balanced  : Balanced 0 0 tokens
  calm      : Layout.Calm (utf8Length text) 0 tokens

variable {text done rest : List Char} {tokens more : List PyVerify.Token} {t : PyVerify.Token} {s u : Layout.State} {p : Piece} {z : Span}
variable {column m n : Nat} {widths opened : List Nat} {k : Kind}

namespace Balanced

variable {i : Nat}

theorem nil : Balanced n n [] :=
  ⟨fun init h => by simp [List.prefix_nil.mp h], rfl⟩

theorem append (h : Balanced i m tokens) (hm : Balanced m n more) : Balanced i n (tokens ++ more) := by
  refine ⟨fun init hi => ?_, ?_⟩
  case refine_1 =>
    obtain ⟨_, hi⟩ := hi
    obtain ⟨_, rfl, -⟩ | ⟨init, rfl, rfl⟩ := List.append_eq_append_iff.mp hi
    case inl => exact h.left init (List.prefix_append ..)
    case inr =>
      have ha := h.right
      have hb := hm.left init (List.prefix_append ..)
      simp only [List.countP_append]
      omega
  case refine_2 =>
    have ha := h.right
    have hb := hm.right
    simp only [List.countP_append]
    omega

theorem ordinary (hi : t.kind ≠ .indent) (hd : t.kind ≠ .dedent) : Balanced n n [t] := by
  refine ⟨fun init h => ?_, by simp [hi, hd]⟩
  exact h.sublist.countP_le.trans (by simp [hd])

theorem indent : Balanced n (n + 1) [⟨.indent, z⟩] :=
  ⟨fun _ h => h.sublist.countP_le.trans (Nat.zero_le _), rfl⟩

theorem dedents {closed : List Nat} : Balanced (closed ++ widths).length widths.length (closed.map fun _ => ⟨.dedent, z⟩) := by
  refine ⟨fun init h => ?_, ?_⟩
  case refine_1 =>
    have hl := (List.countP_le_length (p := (·.kind = .dedent))).trans h.length_le
    simp only [List.length_map] at hl
    simp only [List.length_append]
    omega
  case refine_2 =>
    simp [List.countP_replicate, Nat.add_comm]

end Balanced

namespace Layout

theorem Opening.balanced (h : Opening column z widths tokens opened) : Balanced widths.length opened.length tokens := by
  cases h
  case indent   => exact .indent
  case dedents  => exact .dedents

theorem Step.balanced (hr : Reads p cs rest) (h : Step s p cs tokens u) : Balanced s.widths.length u.widths.length tokens := by
  have hk : ∀ {n k z}, p = .token k → Balanced n n [⟨k, z⟩] := by
    rintro n k z rfl
    refine .ordinary ?_ ?_ <;> (rintro rfl; exact hr.spells.not_isLayout rfl)
  cases h
  case ended      => exact .ordinary nofun nofun
  case inside     => exact hk rfl
  case opens ho   => exact ho.balanced.append (hk rfl)
  all_goals exact .nil

theorem finish_balanced : Balanced s.widths.length 0 (finish s) := by
  refine .append (.append (m := s.widths.length) ?_ ?_) (.ordinary nofun nofun)
  case refine_1 =>
    split
    case isTrue   => exact .ordinary nofun nofun
    case isFalse  => exact .nil
  case refine_2 =>
    have hd : Balanced (s.widths ++ []).length 0 (s.widths.map fun _ => ⟨.dedent, .point s.offset⟩) := .dedents
    rwa [List.append_nil] at hd

theorem Run.balanced (h : Run s rest tokens) : Balanced s.widths.length 0 tokens := by
  induction h
  case finish           => exact finish_balanced
  case step hr hs _ hi  => exact (hs.balanced hr).append hi

theorem Opening.calm (h : Opening column z widths tokens opened) : Calm n 0 tokens := by
  have hd : ∀ init, init <+: tokens → init.foldl (fun depth t => depthAfter depth t.kind) 0 = 0 :=
    fun init hi => foldl_depthAfter_layout fun t ht => h.isLayout <| hi.subset ht
  exact fun init t hp _ _ => hd init <| (List.prefix_append ..).trans hp

theorem Step.calm (hb : s.Behind done (cs ++ rest)) (hr : Reads p cs rest) (h : Step s p cs tokens u) : Calm n s.depth tokens := by
  have hk : ∀ {k z m}, p = .token k → Calm n m [⟨k, z⟩] := by
    rintro k z m rfl
    exact .cons (fun h => (hr.spells.not_isLayout h).elim) .nil
  cases h
  case ended hd _   => exact .cons (fun _ _ => hd) .nil
  case inside       => exact hk rfl
  case opens ho ha =>
    rw [hb.depth ho]
    exact ha.calm.append (hk rfl)
  all_goals exact .nil

theorem Run.calm (h : Run s rest tokens) (hb : s.Behind done rest) : Calm (s.offset + utf8Length rest) s.depth tokens := by
  induction h generalizing done
  case finish =>
    intro init t hp _ hz
    have ht : t ∈ Layout.finish _ := hp.subset <| List.mem_append_right _ <| .head _
    exact (hz (mem_finish ht).right).elim
  case step hr hs _ hi =>
    have hm := hi (hb.step hr hs)
    rw [hs.offset, hs.depth, Nat.add_assoc, ← utf8Length_append] at hm
    exact .append (hs.calm hb hr) hm

theorem Opening.nested (h : Opening column z widths tokens opened) (hn : Nested widths) :
    Nested opened ∧ opened.headD 0 = column := by
  cases h
  case indent hw =>
    refine ⟨List.pairwise_cons.mpr ⟨?_, hn⟩, rfl⟩
    cases widths
    case nil => exact List.forall_mem_singleton.mpr hw
    case cons =>
      exact List.forall_mem_cons.mpr ⟨hw, fun _ hv => ((List.pairwise_cons.mp hn).left _ hv).trans hw⟩
  case dedents closed hw =>
    exact ⟨hn.sublist <| (List.sublist_append_right closed opened).append_right [0], hw⟩

theorem Opening.opened_eq {l : Line} (h : Opening column z widths tokens opened) (hm : l.margin = tokens)
    (hw : l.width text = column) : l.opened text widths = opened := by
  cases h
  case indent   => simp [Line.opened, hm, hw]
  case dedents  => simp [Line.opened, hm]

theorem Opening.shape (h : Opening column z widths tokens opened) :
    (∃ t, tokens = [t] ∧ t.kind = .indent) ∨ ∀ t ∈ tokens, t.kind = .dedent := by
  cases h
  case indent   => exact .inl ⟨_, rfl, rfl⟩
  case dedents  => exact .inr <| List.forall_mem_map.mpr fun _ _ => rfl

-- A line has begun, and its end stands in front of the other lines.
def Unfinished (text : List Char) (widths : List Nat) (tokens : List PyVerify.Token) : Prop :=
  ∃ more stop rest, tokens = more ++ stop :: rest ∧ (∀ t ∈ more, ¬t.kind.isLayout) ∧ stop.kind = .newline ∧ Laid text widths rest

-- What the tokens are from a state on.
def GoesOn (text : List Char) : Bool → List Nat → List PyVerify.Token → Prop
  | true, widths, tokens  => Unfinished text widths tokens
  | false, widths, tokens => Laid text widths tokens

theorem finish_laid (hs : s.offset = utf8Length text) :
    Laid text s.widths (s.widths.map (fun _ => ⟨.dedent, .point s.offset⟩) ++ [⟨.eof, .point s.offset⟩]) :=
  ⟨[], by rw [hs]; rfl, List.forall_mem_nil _, .nil⟩

-- Behind a line that fits, the lines go on with the blocks that are open on it.
theorem Laid.cons {l : Line} (hs : l.IsShaped) (hf : l.Fits text widths)
    (h : Laid text (l.opened text widths) more) : Laid text widths (l.tokens ++ more) := by
  obtain ⟨lines, rfl, hl, ha⟩ := h
  exact ⟨l :: lines, by simp, List.forall_mem_cons.mpr ⟨hs, hl⟩, .cons hf ha⟩

theorem State.Behind.width_eq {l : Line} (hb : s.Behind done (cs ++ rest)) (ho : s.lineOpen = false)
    (hl : l.first.span.start = s.offset) : l.width (done ++ (cs ++ rest)) = marginWidth s.margin := by
  rw [Line.width, hl, hb.offset, takeBytes?_append, hb.margin ho]
  rfl

theorem Step.nested (h : Step s p cs tokens u) (hn : Nested s.widths) : Nested u.widths := by
  cases h
  case opens ha => exact (ha.nested hn).left
  all_goals exact hn

theorem Step.goesOn (hb : s.Behind done (cs ++ rest)) (hr : Reads p cs rest) (h : Step s p cs tokens u) (hn : Nested s.widths)
    (hm : GoesOn (done ++ (cs ++ rest)) u.lineOpen u.widths more) :
    GoesOn (done ++ (cs ++ rest)) s.lineOpen s.widths (tokens ++ more) := by
  cases h
  case blank | joined => exact hm
  case skipped ho =>
    rw [ho]
    exact hm
  case ended ho =>
    rw [ho]
    exact ⟨[], _, _, rfl, List.forall_mem_nil _, rfl, hm⟩
  case inside ho =>
    rw [ho]
    obtain ⟨init, stop, rest, rfl, hi, hk, hl⟩ := hm
    exact ⟨_ :: init, stop, rest, rfl, List.forall_mem_cons.mpr ⟨hr.spells.not_isLayout, hi⟩, hk, hl⟩
  case opens opened widths k ho ha =>
    rw [ho]
    obtain ⟨init, stop, rest, rfl, hi, hk, hl⟩ := hm
    let l : Line := ⟨opened, ⟨k, .between s.offset (s.offset + utf8Length cs)⟩, init, stop⟩
    have hw := hb.width_eq (l := l) ho rfl
    have he := ha.opened_eq (l := l) rfl hw
    obtain ⟨hn, hc⟩ := ha.nested hn
    have hf : l.Fits _ s.widths := ⟨he ▸ hn, by rw [he, hc, hw]⟩
    have hs : l.IsShaped := ⟨ha.shape, hr.spells.not_isLayout, hi, hk⟩
    have hl := Laid.cons hs hf (he ▸ hl)
    rw [Line.tokens, List.append_assoc, List.cons_append, List.append_assoc] at hl
    rwa [List.append_assoc]

theorem Run.goesOn (h : Run s rest tokens) (hb : s.Behind done rest) (hn : Nested s.widths) :
    GoesOn (done ++ rest) s.lineOpen s.widths tokens := by
  induction h generalizing done
  case finish s =>
    have hf : Laid (done ++ []) _ _ := finish_laid (hb.offset.trans <| by rw [List.append_nil])
    rw [Layout.finish, List.append_assoc]
    cases s.lineOpen
    case false  => exact hf
    case true   => exact ⟨[], _, _, rfl, List.forall_mem_nil _, rfl, hf⟩
  case step hr hs _ hi =>
    refine hs.goesOn hb hr hn ?_
    rw [← List.append_assoc]
    exact hi (hb.step hr hs) (hs.nested hn)

end Layout

theorem tokenize_wellLaid (h : tokenize text = .ok tokens) : WellLaid text tokens := by
  have hr := Layout.run_of_tokenize h
  refine ⟨hr.goesOn .initial (List.pairwise_singleton ..), hr.balanced, ?_⟩
  simpa [Layout.State.initial] using hr.calm .initial

-- Two blocks that end together behind a comment, and a line that ends with the text.
def nested : List Char :=
  "a:\n  b:\n\tc(\n)\n # d\ne:\n f".toList

theorem nested_wellLaid : ∃ tokens, tokenize nested = .ok tokens ∧ tokens.length = 22 ∧ WellLaid nested tokens := by
  have ht : (tokenize nested).toOption.bind (fun ts => some ts.length) = some 22 := by decide +kernel
  obtain ⟨tokens, ht, hl⟩ := exists_ok_of_toOption ht
  exact ⟨tokens, ht, Option.some.inj hl, tokenize_wellLaid ht⟩

end Token
end PyVerify
