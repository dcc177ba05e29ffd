import PyVerify.Text.Line
import PyVerify.Text.Search

namespace PyVerify.Text

variable {needle text : List Char} {c : Char}

theorem occurs_iff : Occurs needle text ↔ needle <:+: text :=
  ⟨fun ⟨s, t, h⟩ => ⟨s, t, h.symm⟩, fun ⟨s, t, h⟩ => ⟨s, t, h.symm⟩⟩

theorem Occurs.mem (h : Occurs needle text) (hc : c ∈ needle) : c ∈ text :=
  (occurs_iff.mp h).subset hc

theorem not_mem_repr (hc : ¬c.isDigit) (n : Nat) : c ∉ n.repr.toList := by
  rw [Nat.toList_repr]
  exact fun h => hc <| Nat.isDigit_of_mem_toDigits (by decide) (by decide) h

-- What stands before and behind a character cannot be joined by it to a text that it is not in.
theorem occurs_append_cons_iff (hc : c ∉ needle) (before after : List Char) :
    Occurs needle (before ++ c :: after) ↔ Occurs needle before ∨ Occurs needle after := by
  have hp : ∀ {t}, c ∉ t → t <+: c :: after → t = [] := by
    intro t ht h
    obtain rfl | ⟨_, rfl, _⟩ := List.prefix_cons_iff.mp h
    · rfl
    · simp at ht
  simp only [occurs_iff, List.infix_append_iff, List.infix_cons_iff]
  refine ⟨?mp, .imp_right fun h => .inl <| .inr h⟩
  rintro (h | (h | h) | ⟨t₁, t₂, rfl, h₁, h₂⟩)
  · exact .inl h
  · exact .inl <| hp hc h ▸ List.nil_infix
  · exact .inr h
  · have := hp (fun hm => hc <| List.mem_append_right _ hm) h₂
    exact .inl <| by simpa [this] using h₁.isInfix

-- A text that is found in some line if it is found at all.
structure OneLine (needle : List Char) : Prop where
  nonempty  : needle ≠ []
  feed      : '\n' ∉ needle
  carriage  : '\r' ∉ needle

namespace OneLine

theorem not_occurs_nil (o : OneLine needle) : ¬Occurs needle [] :=
  fun h => o.nonempty <| List.infix_nil.mp <| occurs_iff.mp h

theorem occurs_withoutReturn_iff (o : OneLine needle) (line : List Char) :
    Occurs needle (withoutReturn line) ↔ Occurs needle line := by
  unfold withoutReturn
  split
  case isTrue h =>
    obtain ⟨body, rfl⟩ := List.getLast?_eq_some_iff.mp h
    simp [occurs_append_cons_iff o.carriage, o.not_occurs_nil]
  case isFalse => rfl

theorem occurs_linesFrom_iff (o : OneLine needle) (line text : List Char) :
    (∃ l ∈ linesFrom line text, Occurs needle l) ↔ Occurs needle (line.reverse ++ text) := by
  fun_induction linesFrom line text
  case case1 he => simp [List.isEmpty_iff.mp he, o.not_occurs_nil]
  case case2     => simp
  case case3 line rest hi =>
    rw [occurs_append_cons_iff o.feed, ←o.occurs_withoutReturn_iff line.reverse]
    simpa using or_congr_right hi
  case case4 hi => simpa using hi

theorem occurs_lines_iff (o : OneLine needle) (text : List Char) :
    (∃ l ∈ lines text, Occurs needle l) ↔ Occurs needle text :=
  o.occurs_linesFrom_iff [] text

theorem occurs_unlines_append_iff (o : OneLine needle) (lines : List (List Char)) (text : List Char) :
    Occurs needle (unlines lines ++ text) ↔ (∃ l ∈ lines, Occurs needle l) ∨ Occurs needle text := by
  induction lines
  case nil => simp [unlines]
  case cons line rest hi =>
    have := occurs_append_cons_iff o.feed line (unlines rest ++ text)
    simp_all [unlines, or_assoc]

end OneLine

variable {line rest : List Char}

-- A text is its lines, each with its end, and what stands behind the last line feed.
theorem lineInduction {P : List Char → Prop} (last : ∀ line, '\n' ∉ line → P line)
    (step : ∀ line rest, '\n' ∉ line → P rest → P (line ++ '\n' :: rest)) (text : List Char) :
    P text := by
  by_cases h : '\n' ∈ text
  case neg => exact last text h
  case pos =>
    obtain ⟨line, rest, he, hl⟩ := List.eq_append_cons_of_mem h
    rw [he]
    exact step line rest hl (lineInduction last step rest)
termination_by text.length
decreasing_by
  simp only [he, List.length_append, List.length_cons]
  omega

theorem linesFrom_of_not_mem (h : '\n' ∉ text) (before : List Char) :
    linesFrom before text = if (before.reverse ++ text).isEmpty then [] else [before.reverse ++ text] := by
  induction text generalizing before
  case nil => simp [linesFrom]
  case cons c cs hi =>
    obtain ⟨hc, h⟩ : c ≠ '\n' ∧ '\n' ∉ cs := by simpa [eq_comm] using h
    rw [linesFrom, hi h]
    · simp
    · exact hc

theorem linesFrom_append_newline (h : '\n' ∉ line) (before rest : List Char) :
    linesFrom before (line ++ '\n' :: rest) = withoutReturn (before.reverse ++ line) :: linesFrom [] rest := by
  induction line generalizing before
  case nil => simp [linesFrom]
  case cons c cs hi =>
    obtain ⟨hc, h⟩ : c ≠ '\n' ∧ '\n' ∉ cs := by simpa [eq_comm] using h
    rw [List.cons_append, linesFrom, hi h]
    · simp
    · exact hc

theorem lines_of_not_mem (h : '\n' ∉ text) : lines text = if text.isEmpty then [] else [text] :=
  linesFrom_of_not_mem h []

theorem lines_append_newline (h : '\n' ∉ line) (rest : List Char) :
    lines (line ++ '\n' :: rest) = withoutReturn line :: lines rest :=
  linesFrom_append_newline h [] rest

theorem withoutReturn_of_not_mem (h : '\r' ∉ line) : withoutReturn line = line :=
  if_neg fun hl => h (List.mem_of_getLast? hl)

theorem withoutReturn_isPrefix (line : List Char) : withoutReturn line <+: line := by
  unfold withoutReturn
  split
  · exact List.dropLast_prefix line
  · exact List.prefix_rfl

theorem newline_not_mem_lines (text : List Char) : ∀ l ∈ lines text, '\n' ∉ l := by
  induction text using lineInduction
  case last text h =>
    rw [lines_of_not_mem h]
    split <;> simp [h]
  case step line rest h hi =>
    rw [lines_append_newline h]
    exact List.forall_mem_cons.mpr ⟨fun hm => h ((withoutReturn_isPrefix line).subset hm), hi⟩

-- The text consists of whole lines, so that what follows it starts a line.
def Complete (text : List Char) : Prop :=
  ∀ c ∈ text.getLast?, c = '\n'

instance (text : List Char) : Decidable (Complete text) :=
  (text.getLast?.decidableForallMem : Decidable (∀ c ∈ text.getLast?, c = '\n'))

namespace Complete

theorem eq_nil (h : Complete text) (hn : '\n' ∉ text) : text = [] := by
  rw [←List.getLast?_eq_none_iff, Option.eq_none_iff_forall_not_mem]
  exact fun c hc => hn (h c hc ▸ List.mem_of_getLast? hc)

theorem of_append (h : Complete (text ++ rest)) : Complete rest :=
  fun c hc => h c (by simp_all [List.getLast?_append])

theorem of_cons (h : Complete (c :: text)) : Complete text :=
  of_append (show Complete ([c] ++ text) from h)

theorem append_newline (text : List Char) : Complete (text ++ ['\n']) := by
  simp [Complete]

theorem nil : Complete [] := nofun

theorem newline_append (h : Complete rest) : Complete (text ++ '\n' :: rest) := by
  cases rest
  case nil => exact append_newline text
  case cons => simpa [Complete, List.getLast?_append, List.getLast?_cons] using h

end Complete

theorem lines_append (h : Complete text) (rest : List Char) :
    lines (text ++ rest) = lines text ++ lines rest := by
  induction text using lineInduction
  case last text hn => rw [h.eq_nil hn]; rfl
  case step line more hl hi =>
    rw [List.append_assoc, List.cons_append, lines_append_newline hl, lines_append_newline hl,
      hi h.of_append.of_cons, List.cons_append]

namespace OneLine

variable {needle : List Char}

theorem occurs_append_iff (o : OneLine needle) (h : Complete text) :
    Occurs needle (text ++ rest) ↔ Occurs needle text ∨ Occurs needle rest := by
  rw [←o.occurs_lines_iff, ←o.occurs_lines_iff text, ←o.occurs_lines_iff rest, lines_append h]
  simp only [List.mem_append, or_and_right, exists_or]

theorem occurs_unlines_lines_iff (o : OneLine needle) :
    Occurs needle (unlines (lines text)) ↔ Occurs needle text := by
  have h := o.occurs_unlines_append_iff (lines text) []
  rwa [List.append_nil, o.occurs_lines_iff, or_iff_left o.not_occurs_nil] at h

end OneLine

-- All characters but those that end lines.
def visible (text : List Char) : List Char :=
  text.filter fun c => c ≠ '\n' ∧ c ≠ '\r'

@[simp]
theorem visible_append (text rest : List Char) : visible (text ++ rest) = visible text ++ visible rest :=
  List.filter_append ..

theorem visible_withoutReturn (line : List Char) : visible (withoutReturn line) = visible line := by
  unfold withoutReturn
  split
  case isTrue h =>
    obtain ⟨body, rfl⟩ := List.getLast?_eq_some_iff.mp h
    simp [visible]
  case isFalse => rfl

-- Taking a text apart into lines changes nothing but the ends of the lines.
theorem visible_unlines_lines (text : List Char) : visible (unlines (lines text)) = visible text := by
  induction text using lineInduction
  case last text h =>
    rw [lines_of_not_mem h]
    split
    case isTrue he => simp [List.isEmpty_iff.mp he, unlines]
    case isFalse => simp [unlines, visible]
  case step line rest h hi =>
    rw [lines_append_newline h]
    have hu : unlines (withoutReturn line :: lines rest) =
        withoutReturn line ++ ['\n'] ++ unlines (lines rest) := rfl
    rw [hu, visible_append, visible_append, visible_withoutReturn, hi]
    simp [visible]

end PyVerify.Text
