import Mathlib.Data.List.DropRight
import Mathlib.Data.List.Infix
import PyVerify.Proofs.Token.Order
import PyVerify.Proofs.Token.Piece

namespace PyVerify.Token

-- The tokens that mark where lines, blocks and the text end.
def Kind.isLayout : Kind → Bool
  | newline | indent | dedent | eof => true
  | _                               => false

theorem Kind.Spells.not_isLayout {k : Kind} {cs : List Char} (h : k.Spells cs) : ¬k.isLayout := by
  cases k
  case newline | indent | dedent | eof => cases h
  all_goals nofun

theorem Reads.spells {k : Kind} {cs rest : List Char} (h : Reads (.token k) cs rest) : k.Spells cs := by
  cases h
  case token hk => exact hk

theorem Reads.head_ne {k : Kind} {c : Char} {cs rest : List Char} (h : Reads (.token k) (c :: cs) rest) : c ≠ '\r' ∧ c ≠ '\n' := by
  cases h
  case token hc _ => exact hc c rfl

theorem Reads.ne_nil {p : Piece} {cs rest : List Char} (h : Reads p cs rest) : cs ≠ [] := by
  cases h
  case blanks hn _    => exact hn
  case token hn _ _   => exact hn
  case lineBreak h    => obtain rfl | rfl := h <;> nofun
  all_goals nofun

-- What stands in front of a logical line has no token, and a comment in it goes to the end of its line.
def IsBlankLine (line rest : List Char) : Prop :=
  ∃ blanks comment, line = blanks ++ comment ∧ (∀ c ∈ blanks, Lexeme.isBlank c) ∧
    (comment = [] ∨ comment.head? = some '#' ∧ ∀ c ∈ rest.head?, c = '\r' ∨ c = '\n')

theorem lastLine_append_newline {text : List Char} : lastLine (text ++ ['\n']) = [] :=
  List.rtakeWhile_concat_neg _ _ _ (by decide)

theorem lastLine_append_of_isBreak {text cs : List Char} (h : IsBreak cs) : lastLine (text ++ cs) = [] := by
  obtain rfl | rfl := h
  case inl => exact lastLine_append_newline
  case inr =>
    rw [List.append_cons]
    exact lastLine_append_newline

theorem lastLine_append_of_not_mem {text cs : List Char} (h : '\n' ∉ cs) : lastLine (text ++ cs) = lastLine text ++ cs := by
  have hc : ∀ c ∈ cs.reverse, (decide (c ≠ '\n')) = true := by
    intro c hc
    have hn : c ≠ '\n' := by
      rintro rfl
      exact h (List.mem_reverse.mp hc)
    simpa using hn
  simp only [lastLine, List.reverse_append]
  rw [List.takeWhile_append_of_pos hc, List.reverse_append, List.reverse_reverse]

-- The line depends on what stands behind the last line feed only.
theorem lastLine_append {text cs : List Char} : lastLine (lastLine text ++ cs) = lastLine (text ++ cs) := by
  induction cs using List.reverseRecOn
  case nil =>
    simp only [List.append_nil]
    exact List.rtakeWhile_idempotent ..
  case append_singleton cs c hi =>
    simp only [← List.append_assoc]
    by_cases hc : c = '\n'
    case pos => rw [hc, lastLine_append_newline, lastLine_append_newline]
    case neg =>
      have hm : '\n' ∉ [c] := by simpa using Ne.symm hc
      rw [lastLine_append_of_not_mem hm, lastLine_append_of_not_mem hm, hi]

namespace IsBlankLine

variable {line blanks cs rest : List Char} {c : Char}

theorem nil : IsBlankLine [] rest :=
  ⟨[], [], rfl, nofun, .inl rfl⟩

-- Behind a comment nothing stands but the line break.
theorem all_blank (h : IsBlankLine line (c :: rest)) (hc : c ≠ '\r' ∧ c ≠ '\n') : ∀ d ∈ line, Lexeme.isBlank d := by
  obtain ⟨blanks, comment, rfl, hb, rfl | ⟨-, hr⟩⟩ := h
  case inl => simpa using hb
  case inr =>
    obtain hn | hn := hr c rfl
    case inl => cases hc.left hn
    case inr => cases hc.right hn

theorem append_blanks (h : ∀ c ∈ line, Lexeme.isBlank c) (hb : ∀ c ∈ blanks, Lexeme.isBlank c) :
    IsBlankLine (line ++ blanks) rest :=
  ⟨line ++ blanks, [], (List.append_nil _).symm, List.forall_mem_append.mpr ⟨h, hb⟩, .inl rfl⟩

theorem append_comment (h : ∀ c ∈ line, Lexeme.isBlank c) (hr : ∀ c ∈ rest.head?, c = '\r' ∨ c = '\n') :
    IsBlankLine (line ++ '#' :: cs) rest :=
  ⟨line, '#' :: cs, rfl, h, .inr ⟨rfl, hr⟩⟩

end IsBlankLine

namespace Layout

-- How a margin of some width opens or closes blocks.
inductive Opening (column : Nat) (z : Span) : List Nat → List PyVerify.Token → List Nat → Prop
  | indent (h : widths.headD 0 < column) : Opening column z widths [⟨.indent, z⟩] (column :: widths)
  | dedents (h : widths.headD 0 = column) : Opening column z (closed ++ widths) (closed.map fun _ => ⟨.dedent, z⟩) widths

-- What a piece does, by the piece and by what is open in front of it.
inductive Step (s : State) : Piece → List Char → List PyVerify.Token → State → Prop
  | blank :
    Step s .blank cs [] ⟨s.offset + utf8Length cs, lastLine (s.margin ++ cs), s.depth, s.lineOpen, s.widths⟩
  | joined (hd : 0 < s.depth) :
    Step s .lineBreak cs [] ⟨s.offset + utf8Length cs, [], s.depth, s.lineOpen, s.widths⟩
  | skipped (hd : s.depth = 0) (ho : s.lineOpen = false) :
    Step s .lineBreak cs [] ⟨s.offset + utf8Length cs, [], 0, false, s.widths⟩
  | ended (hd : s.depth = 0) (ho : s.lineOpen = true) :
    Step s .lineBreak cs [⟨.newline, .between s.offset (s.offset + utf8Length cs)⟩]
      ⟨s.offset + utf8Length cs, [], 0, false, s.widths⟩
  | inside (ho : s.lineOpen = true) :
    Step s (.token k) cs [⟨k, .between s.offset (s.offset + utf8Length cs)⟩]
      ⟨s.offset + utf8Length cs, [], depthAfter s.depth k, true, s.widths⟩
  | opens (ho : s.lineOpen = false) (h : Opening (marginWidth s.margin) s.marginSpan s.widths opened widths) :
    Step s (.token k) cs (opened ++ [⟨k, .between s.offset (s.offset + utf8Length cs)⟩])
      ⟨s.offset + utf8Length cs, [], depthAfter s.depth k, true, widths⟩

-- The pieces of a text one after the other, to its end.
inductive Run : State → List Char → List PyVerify.Token → Prop
  | finish : Run s [] (finish s)
  | step (hr : Reads p cs rest) (hs : Step s p cs first t) (h : Run t rest more) : Run s (cs ++ rest) (first ++ more)

variable {s t : State} {l : Lexeme} {p : Piece} {cs text done rest : List Char} {tokens : List PyVerify.Token} {u : PyVerify.Token}
variable {column m : Nat} {widths opened : List Nat} {z : Span}

theorem Opening.mem (h : Opening column z widths tokens opened) (hu : u ∈ tokens) :
    (u.kind = .indent ∨ u.kind = .dedent) ∧ u.span = z := by
  cases h
  case indent => exact List.mem_singleton.mp hu ▸ ⟨.inl rfl, rfl⟩
  case dedents =>
    obtain ⟨_, -, rfl⟩ := List.mem_map.mp hu
    exact ⟨.inr rfl, rfl⟩

theorem mem_finish (h : u ∈ finish s) : (u.kind = .newline ∨ u.kind = .dedent ∨ u.kind = .eof) ∧ u.span = .point s.offset := by
  simp only [finish, List.mem_append, List.mem_map, List.mem_singleton] at h
  obtain (h | ⟨_, -, rfl⟩) | rfl := h
  case inl.inr => exact ⟨.inr (.inl rfl), rfl⟩
  case inr => exact ⟨.inr (.inr rfl), rfl⟩
  case inl.inl =>
    split at h
    case isTrue   => exact List.mem_singleton.mp h ▸ ⟨.inl rfl, rfl⟩
    case isFalse  => cases h

theorem opening_of_margin? (h : margin? s = some (tokens, widths)) :
    Opening (marginWidth s.margin) s.marginSpan s.widths tokens widths := by
  simp only [margin?] at h
  split at h
  case isTrue hw =>
    cases h
    exact .indent hw
  case isFalse =>
    split at h
    case isFalse => cases h
    case isTrue hw =>
      cases h
      have hd (closed : List Nat) : Opening (marginWidth s.margin) s.marginSpan (closed ++ _) _ _ := .dedents hw
      have hs := hd <| s.widths.takeWhile (marginWidth s.margin < ·)
      rwa [← List.prefix_append_drop (List.takeWhile_prefix _)] at hs

theorem step_inv (h : step s l = .ok (tokens, t)) : Step s l.piece l.text tokens t := by
  obtain ⟨piece, cs⟩ := l
  simp only [step] at h
  split at h
  case h_1 =>
    cases h
    exact .blank
  case h_2 =>
    split at h
    case isTrue hd =>
      cases h
      exact .joined hd
    case isFalse hd =>
      have hd : s.depth = 0 := Nat.eq_zero_of_not_pos hd
      cases h
      rw [hd]
      split
      case isTrue ho  => exact .ended hd ho
      case isFalse ho => exact .skipped hd (by simpa using ho)
  case h_3 =>
    obtain ⟨⟨opened, widths⟩, ho, h⟩ := exists_ok_of_bind h
    cases h
    split at ho
    case isTrue hl =>
      cases ho
      exact .inside hl
    case isFalse hl =>
      split at ho
      case h_2 => cases ho
      case h_1 hm =>
        cases ho
        exact .opens (by simpa using hl) (opening_of_margin? hm)
  case h_4 =>
    obtain ⟨_, -, h⟩ := exists_ok_of_bind h
    cases h
  case h_5 => cases h

theorem run_of_scan (h : run s (Lexeme.scan cs) = .ok tokens) : Run s cs tokens := by
  fun_induction Lexeme.scan cs generalizing s tokens
  case case1 =>
    cases h
    exact .finish
  case case2 hl =>
    obtain ⟨⟨first, t⟩, hs, -⟩ := exists_ok_of_bind h
    cases step_inv hs
    all_goals cases hl
  case case3 c cs p n hr _ hl hi =>
    obtain ⟨⟨first, t⟩, hs, h⟩ := exists_ok_of_bind h
    obtain ⟨more, hm, h⟩ := exists_ok_of_bind h
    cases h
    have hs := Run.step (Lexeme.reads_of_read hr hl) (step_inv hs) (hi hm)
    rwa [List.cons_append, List.take_append_drop] at hs

theorem run_of_tokenize (h : tokenize text = .ok tokens) : Run .initial text tokens :=
  run_of_scan h

-- Layout opens and closes no brackets.
theorem foldl_depthAfter_layout (h : ∀ t ∈ tokens, t.kind.isLayout) :
    tokens.foldl (fun depth t => depthAfter depth t.kind) m = m := by
  induction tokens
  case nil => rfl
  case cons t tokens hi =>
    obtain ⟨ht, h⟩ := List.forall_mem_cons.mp h
    have hd : depthAfter m t.kind = m := by
      generalize t.kind = k at ht
      cases k <;> first | rfl | cases ht
    rw [List.foldl_cons, hd, hi h]

theorem Opening.isLayout (h : Opening column z widths tokens opened) (hu : u ∈ tokens) : u.kind.isLayout := by
  obtain hk | hk := (h.mem hu).left <;> rw [hk] <;> rfl

theorem isLayout_of_mem_finish (h : u ∈ finish s) : u.kind.isLayout := by
  obtain hk | hk | hk := (mem_finish h).left <;> rw [hk] <;> rfl

namespace Step

theorem offset (h : Step s p cs tokens t) : t.offset = s.offset + utf8Length cs := by
  cases h <;> rfl

theorem depth (h : Step s p cs tokens t) :
    t.depth = tokens.foldl (fun depth t => depthAfter depth t.kind) s.depth := by
  cases h
  case blank | joined | inside => rfl
  case skipped hd _ | ended hd _ => exact hd.symm
  case opens ho =>
    rw [List.foldl_append, foldl_depthAfter_layout fun _ => ho.isLayout]
    rfl

end Step

-- What a state says of the text in front of it.
structure State.Behind (s : State) (done rest : List Char) : Prop where
  offset  : s.offset = utf8Length done
  depth   : s.lineOpen = false → s.depth = 0
  margin  : s.lineOpen = false → s.margin = lastLine done
  blank   : s.lineOpen = false → IsBlankLine (lastLine done) rest

namespace State.Behind

theorem initial : State.initial.Behind [] text :=
  ⟨rfl, fun _ => rfl, fun _ => rfl, fun _ => .nil⟩

-- A logical line begins behind blanks.
theorem margin_blank {c : Char} (h : s.Behind done (c :: cs)) (ho : s.lineOpen = false) (hc : c ≠ '\r' ∧ c ≠ '\n') :
    ∀ d ∈ s.margin, Lexeme.isBlank d :=
  h.margin ho ▸ (h.blank ho).all_blank hc

theorem offset_append (h : s.Behind done rest) : s.offset + utf8Length cs = utf8Length (done ++ cs) := by
  rw [h.offset, utf8Length_append]

theorem blank_append (h : Reads .blank cs rest) (hb : IsBlankLine (lastLine done) (cs ++ rest)) :
    IsBlankLine (lastLine (done ++ cs)) rest := by
  have hn : ∀ {c}, Lexeme.isBlank c → c ≠ '\r' ∧ c ≠ '\n' := by
    intro c hc
    constructor <;> (rintro rfl; cases hc)
  cases h
  case blanks hc hs =>
    obtain ⟨c, cs, rfl⟩ := List.exists_cons_of_ne_nil hc
    rw [lastLine_append_of_not_mem fun hm => (hn <| hs _ hm).right rfl]
    exact .append_blanks (hb.all_blank <| hn <| hs c <| .head _) hs
  case comment cs hs hr =>
    have hm : '\n' ∉ '#' :: cs := by
      rintro (_ | ⟨_, hm⟩)
      exact (hs _ hm).right rfl
    rw [lastLine_append_of_not_mem hm]
    exact .append_comment (hb.all_blank <| by decide) hr
  case joined cs hs =>
    rw [List.append_cons, lastLine_append_of_isBreak hs]
    exact .nil

theorem step (h : s.Behind done (cs ++ rest)) (hr : Reads p cs rest) (hs : Step s p cs tokens t) :
    t.Behind (done ++ cs) rest := by
  cases hs
  case blank =>
    refine ⟨h.offset_append, h.depth, fun ho => ?_, fun ho => blank_append hr (h.blank ho)⟩
    rw [h.margin ho, lastLine_append]
  case joined hd => exact ⟨h.offset_append, h.depth, fun ho => (hd.ne' <| h.depth ho).elim, fun ho => (hd.ne' <| h.depth ho).elim⟩
  case skipped | ended =>
    have hl : lastLine (done ++ cs) = [] := by
      cases hr
      case lineBreak hb => exact lastLine_append_of_isBreak hb
    exact ⟨h.offset_append, fun _ => rfl, fun _ => hl.symm, fun _ => hl ▸ .nil⟩
  case inside | opens => exact ⟨h.offset_append, nofun, nofun, nofun⟩

end State.Behind

end Layout
end PyVerify.Token
