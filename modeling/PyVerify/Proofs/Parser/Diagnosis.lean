import PyVerify.Proofs.Parser.Settles.Statement
import PyVerify.Proofs.Text.Line
import PyVerify.Proofs.Token.Failure
import PyVerify.Proofs.Token.Lines
import PyVerify.Proofs.Token.Lossless

namespace PyVerify

open Token (lastLine lastLine_append_newline lastLine_append_of_not_mem)

variable {text before after left : List Char} {above : List (List Char)} {tokens : List Token} {e : SyntaxError} {n : Nat}

-- The byte that a reader comes to who counts lines from the beginning of the text, and characters from the beginning of
-- the line.
def Position.walk? (text : List Char) (p : Position) : Option Nat :=
  match (text.splitOn '\n').splitAt (p.line - 1) with
  | (above, line :: _)  =>
    if p.column - 1 ≤ line.length then some (utf8Length (above.flatMap (· ++ ['\n']) ++ line.take (p.column - 1))) else none
  | (_, [])             => none

-- The line and the column of an error lead to the place where it begins, and it does not stick out of the text.
structure SyntaxError.Placed (text : List Char) (e : SyntaxError) : Prop where
  whole   : e.span.Whole text
  line    : 1 ≤ (e.position text).line ∧ (e.position text).line ≤ (text.splitOn '\n').length
  column  : 1 ≤ (e.position text).column
  walk    : (e.position text).walk? text = some e.span.start

namespace Text

-- What stands in front of the first line feed goes on with what is put before it.
theorem splitOn_append_of_not_mem (h : '\n' ∉ left) (after : List Char) :
    ∃ right below, (left ++ after).splitOn '\n' = (left ++ right) :: below := by
  induction after using lineInduction
  case last right hr =>
    refine ⟨right, [], List.splitOn_eq_singleton ?_⟩
    simp [h, hr]
  case step right rest hr _ =>
    refine ⟨right, rest.splitOn '\n', ?_⟩
    rw [← List.append_assoc, List.splitOn_append_cons_self_of_not_mem]
    simp [h, hr]

-- A place in a text is behind some lines, and on a line.
theorem splitOn_append (before after : List Char) : ∃ above left right below,
    (before ++ after).splitOn '\n' = above ++ (left ++ right) :: below ∧ before = above.flatMap (· ++ ['\n']) ++ left ∧
      '\n' ∉ left ∧ above.length = before.count '\n' := by
  induction before using lineInduction
  case last left hl =>
    obtain ⟨right, below, h⟩ := splitOn_append_of_not_mem hl after
    exact ⟨[], left, right, below, h, rfl, hl, (List.count_eq_zero.mpr hl).symm⟩
  case step line before hl hi =>
    obtain ⟨above, left, right, below, hs, hb, hn, hc⟩ := hi
    refine ⟨line :: above, left, right, below, ?_, ?_, hn, ?_⟩
    case refine_1 => rw [List.append_assoc, List.cons_append, List.splitOn_append_cons_self_of_not_mem hl, hs, List.cons_append]
    case refine_2 =>
      rw [List.flatMap_cons, List.append_assoc, List.append_assoc, ← hb]
      rfl
    case refine_3 => rw [List.length_cons, hc, List.count_append, List.count_eq_zero.mpr hl, List.count_cons_self, Nat.zero_add]

end Text

namespace Position

theorem column_behind (h : '\n' ∉ left) : (behind (above.flatMap (· ++ ['\n']) ++ left)).column = left.length + 1 := by
  have ha : lastLine (above.flatMap (· ++ ['\n'])) = [] := by
    induction above using List.reverseRecOn
    case nil => rfl
    case append_singleton above line _ =>
      rw [List.flatMap_append, List.flatMap_singleton, ← List.append_assoc]
      exact lastLine_append_newline
  have hl : lastLine (above.flatMap (· ++ ['\n']) ++ left) = left := by rw [lastLine_append_of_not_mem h, ha, List.nil_append]
  rw [lastLine] at hl
  rw [behind, ← List.length_reverse, hl]

-- The place behind some characters of a text is one that the text has, and a reader finds it there.
theorem walk?_behind (before after : List Char) : (behind before).line ≤ ((before ++ after).splitOn '\n').length ∧
    (behind before).walk? (before ++ after) = some (utf8Length before) := by
  obtain ⟨above, left, right, below, hs, hb, hl, hn⟩ := Text.splitOn_append before after
  have hc : (behind before).column = left.length + 1 := hb ▸ column_behind hl
  have hm : (behind before).line = above.length + 1 := congrArg (· + 1) hn.symm
  constructor
  case left =>
    rw [hs, hm, List.length_append, List.length_cons]
    omega
  case right =>
    rw [walk?, hs, hm, hc, Nat.add_sub_cancel, Nat.add_sub_cancel, List.splitAt_eq, List.take_left, List.drop_left]
    simp only
    rw [if_pos (by simp), List.take_left, ← hb]

theorem ofOffset_append : ofOffset (before ++ after) (utf8Length before) = behind before := by
  have hn : utf8Length before ≤ utf8Length (before ++ after) := utf8Length_le_of_prefix (List.prefix_append ..)
  rw [ofOffset, min_eq_left hn, takeBytes?_append, Option.getD_some]

end Position

theorem SyntaxError.placed_of_whole (h : e.span.Whole text) : e.Placed text := by
  obtain ⟨before, after, rfl, hs⟩ := h.start
  have hp : e.position (before ++ after) = .behind before := by rw [position, hs, Position.ofOffset_append]
  obtain ⟨hl, hw⟩ := Position.walk?_behind before after
  exact ⟨h, hp ▸ ⟨Nat.le_add_left .., hl⟩, hp ▸ Nat.le_add_left .., by rw [hp, hw, hs]⟩

-- Tokens of a text.
def Ground.ofText (h : Token.tokenize text = .ok tokens) : Ground where
  tokens  := tokens
  Fits    := Span.Whole text
  origin  := .origin
  join    := .join
  token t ht := by
    obtain ⟨before, inside, after, rfl, hz, -⟩ := (Token.Layout.run_of_tokenize h).marked .initial t ht
    rw [hz]
    exact .between

namespace Token

theorem settles_ofText (h : tokenize text = .ok tokens) :
    (Below.ofDepth (tokens.length + 1)).Settles (.ofText h) (tokens.length + 1) (.ofDepth (tokens.length + 1)) :=
  .ofDepth le_rfl le_rfl

theorem whole_of_parseModule_eq_error (h : tokenize text = .ok tokens) (he : parseModule tokens = .error e) : e.span.Whole text :=
  (Parser.Settles.moduleForm fun _ hk => .stmt (settles_ofText h) hk hk hk).of_run'_eq_error he |>.right

theorem whole_of_parseExpr_eq_error (h : tokenize text = .ok tokens) (he : parseExpr tokens = .error e) : e.span.Whole text :=
  (Parser.Settles.exprForm (settles_ofText h) le_rfl).of_run'_eq_error he |>.right

-- What a text fails with is found in its characters or in its tokens.
theorem whole_of_bind_eq_error {α : Type} {p : List Token → Except SyntaxError α}
    (hp : ∀ tokens, tokenize text = .ok tokens → p tokens = .error e → e.span.Whole text)
    (h : (do (p (← tokenize text)).mapError ReadFailure.error) = .error (.error e)) : e.span.Whole text := by
  obtain h | ⟨tokens, ht, h⟩ := error_of_bind h
  case inl => exact whole_of_tokenize_eq_error h
  case inr =>
    refine hp tokens ht ?_
    generalize p tokens = r at h
    cases r <;> cases h
    rfl

end Token

-- Whatever a text is refused for, a reader is told where in the text it is.
theorem SyntaxError.placed_of_parse (h : Module.parse text = .error (.error e) ∨ Expr.parse text = .error (.error e)) : e.Placed text := by
  refine placed_of_whole ?_
  obtain h | h := h
  case inl => exact Token.whole_of_bind_eq_error (fun _ ht he => Token.whole_of_parseModule_eq_error ht he) h
  case inr => exact Token.whole_of_bind_eq_error (fun _ ht he => Token.whole_of_parseExpr_eq_error ht he) h

-- An error behind characters of several bytes, on the second line.
def misplaced : List Char :=
  "x = 'é'\ny = 'ü€' +\n".toList

theorem misplaced_placed : ∃ e, Module.parse misplaced = .error (.error e) ∧ e.cause = .lineInsteadOfExpression ∧ e.span = ⟨22, 1⟩ ∧
    e.Placed misplaced := by
  have hm : (Module.parse misplaced).map (fun _ => ()) = .error (.error ⟨.lineInsteadOfExpression, ⟨22, 1⟩⟩) := by decide +kernel
  cases hp : Module.parse misplaced <;> rw [hp] at hm <;> cases hm
  case error => exact ⟨_, rfl, rfl, rfl, SyntaxError.placed_of_parse (.inl hp)⟩

-- Its line and its column count characters.
example : (⟨2, 11⟩ : Position).walk? misplaced = some 22 := by decide

end PyVerify
