import PyVerify.Code.Artifact
import PyVerify.Proofs.Code.Primitive
import PyVerify.Proofs.Code.Scan

namespace PyVerify

namespace Code

open PyVerify.Token (IsName)
open PyVerify.Token.Lexeme (isNameChar)

theorem isPlain_of {p : Char → Bool} {c : Char} (hd : delimiters.all (!p ·)) (h : p c) : isPlain c := by
  have hc : c ∉ delimiters := fun hm => by simpa [h] using List.all_eq_true.mp hd c hm
  simpa [isPlain] using hc

theorem isPlain_of_isNameChar {c : Char} (h : isNameChar c) : isPlain c :=
  isPlain_of (by decide) h

theorem isPlain_of_point {c : Char} (h : isWordChar c || c == '.') : isPlain c :=
  isPlain_of (by decide : delimiters.all fun c => !(isWordChar c || c == '.')) h

theorem Token.isPlain_of_numeral {cs : List Char} (h : numeral cs = cs.length) : ∀ c ∈ cs, isPlain c := by
  fun_induction numeral cs
  case case1 he hi =>
    have hp : (['e', 'E', 'p', 'P'] ++ ['+', '-']).all isPlain := by decide
    have hp := List.all_eq_true.mp hp
    simp only [List.forall_mem_cons]
    exact ⟨hp _ <| List.mem_append_left _ he.left, hp _ <| List.mem_append_right _ he.right, hi <| by simpa using h⟩
  case case2 hc hi => exact List.forall_mem_cons.mpr ⟨isPlain_of_point hc, hi <| by simpa using h⟩
  case case4 hc    => exact List.forall_mem_singleton.mpr <| isPlain_of_point hc
  case case6       => nofun
  all_goals cases h

theorem IsNumber.isPlain {cs : List Char} (h : IsNumber cs) : ∀ c ∈ cs, Code.isPlain c := by
  cases h
  case intro hd hn =>
    refine List.forall_mem_cons.mpr ⟨isPlain_of_isNameChar <| by simp [isNameChar, Char.isAlphanum, hd], ?_⟩
    exact Token.isPlain_of_numeral <| by simpa using hn (by simp [Apart] : Apart [])

theorem IsNumber.balanced {text : String} (h : IsNumber text.toList) : Balanced text :=
  .plain h.isPlain

theorem balanced_float {x : Binary64} : Balanced (x.render Binary64.messageNotation) := by
  unfold Binary64.render
  split
  case isTrue => exact fun _ => rfl
  case isFalse =>
    refine .append ?_ ?_
    · split <;> exact fun _ => rfl
    · split
      case isTrue => exact fun _ => rfl
      case isFalse =>
        split
        case isTrue   => exact fun _ => rfl
        case isFalse  => exact (IsNumber.layout _ _).balanced

theorem balanced_name {name : String} (h : IsName name) : Balanced name :=
  .plain fun c hc => isPlain_of_isNameChar (h.word c hc)

theorem Word.IsLexical.balanced {name : String} (h : (Word.name name).IsLexical) : Balanced name := by
  obtain rfl | ⟨ident, hi, rfl⟩ := h
  case inl => exact fun _ => rfl
  case inr =>
    unfold identifier
    split
    case isTrue => exact fun _ => rfl
    case isFalse =>
      split
      case isTrue   => exact .append (x := "py_") (fun _ => rfl) (balanced_name hi)
      case isFalse  => exact balanced_name hi

theorem balanced_infix {op : InfixOp} : Balanced (" " ++ op.text ++ " ") := by
  cases op <;> exact fun _ => rfl

theorem balanced_sign {op : SignOp} : Balanced op.text := by
  cases op <;> exact fun _ => rfl

theorem balanced_type {type : CType} : Balanced type.text := by
  cases type <;> exact fun _ => rfl

mutual

theorem Term.balanced : (t : Term) → (∀ w ∈ t.words, w.IsLexical) → Balanced t.text
  | .ident _, h => (h _ List.mem_cons_self).balanced
  | .int n, _ => (IsNumber.nat n).balanced
  | .float _, _ => balanced_float
  | .str _, h => .string (h _ List.mem_cons_self)
  | .infix2 l op r, h => by
    obtain ⟨hl, hr⟩ := List.forall_mem_append.mp h
    have ht : (Term.infix2 l op r).text = l.text ++ (" " ++ op.text ++ " ") ++ r.text := by
      simp [Term.text, String.append_assoc]
    exact ht ▸ .append (.append (l.balanced hl) balanced_infix) (r.balanced hr)
  | .joined _ ts, h => .intercalate balanced_infix (texts_balanced ts h)
  | .sign _ t, h => .append balanced_sign (t.balanced h)
  | .paren t, h => .parens (t.balanced h)
  | .conditional c b o, h => by
    obtain ⟨hc, hbo⟩ := List.forall_mem_append.mp h
    obtain ⟨hb, ho⟩ := List.forall_mem_append.mp hbo
    have hq : Balanced " ? " := fun _ => rfl
    have hs : Balanced " : " := fun _ => rfl
    exact .append (.append (.append (.append (c.balanced hc) hq) (b.balanced hb)) hs) (o.balanced ho)
  | .call func args, h => by
    obtain ⟨hf, ha⟩ := List.forall_mem_cons.mp h
    have hc : Balanced ", " := fun _ => rfl
    have hp := Balanced.parens <| .intercalate hc <| texts_balanced args ha
    have ht : (Term.call func args).text = func ++ ("(" ++ String.intercalate ", " (texts args) ++ ")") := by
      simp [Term.text, String.append_assoc]
    exact ht ▸ .append hf.balanced hp
  | .cast _ t, h => .append (.parens balanced_type) (t.balanced h)
  | .index b i, h => by
    obtain ⟨hb, hi⟩ := List.forall_mem_append.mp h
    have ht : (Term.index b i).text = b.text ++ ("[" ++ i.text ++ "]") := by simp [Term.text, String.append_assoc]
    exact ht ▸ .append (b.balanced hb) (.brackets <| i.balanced hi)
  | .member b _, h => by
    obtain ⟨hb, hn⟩ := List.forall_mem_append.mp h
    have ha : Balanced "->" := fun _ => rfl
    exact .append (.append (b.balanced hb) ha) (balanced_name <| hn _ List.mem_cons_self)

theorem texts_balanced : (ts : List Term) → (∀ w ∈ termsWords ts, w.IsLexical) → ∀ x ∈ texts ts, Balanced x
  | [], _ => nofun
  | t :: ts, h => by
    obtain ⟨ht, hts⟩ := List.forall_mem_append.mp h
    exact List.forall_mem_cons.mpr ⟨t.balanced ht, texts_balanced ts hts⟩

end

theorem balanced_remark {x message : String}
    (hx : ∀ rest, Scan.run ⟨.code, rest⟩ x.toList = some ⟨.comment, rest⟩)
    (h : (Word.message message).IsLexical) : Balanced (x ++ message ++ " */") :=
  .remark hx fun c hc => by simpa using List.all_eq_true.mp h c hc

theorem Condition.balanced {c : Condition} (h : ∀ w ∈ c.words, w.IsLexical) : Balanced c.text := by
  cases c
  case term t       => exact t.balanced h
  case unsupported  =>
    exact balanced_remark (x := "0 /* unsupported condition: ") (fun _ => rfl) (h _ List.mem_cons_self)

section

variable {x : String} {a b : List Char} {level : Nat}

theorem Takes.indent (h : Takes (x ++ "\n") a b) : Takes (Code.line level x) a b := by
  have hb : Balanced (String.ofList (List.replicate (4 * level) ' ')) := by
    refine .plain fun c hc => ?_
    rw [String.toList_ofList] at hc
    rw [List.eq_of_mem_replicate hc]
    rfl
  rw [Code.line, String.append_assoc]
  exact (hb.frame a).append h

theorem Takes.line (h : Takes x a b) : Takes (line level x) a b := by
  have he : Balanced "\n" := fun _ => rfl
  exact .indent <| h.append (he.frame b)

theorem Placeholder.balanced {p : Placeholder} (h : (Word.message p.message).IsLexical) : Balanced (p.text level) :=
  (balanced_remark (x := "/* unsupported: ") (fun _ => rfl) h).line

-- A word with a condition behind it opens a block.
theorem Condition.takes {c : Condition} (hx : Takes x a []) (h : ∀ w ∈ c.words, w.IsLexical) :
    Takes (x ++ " (" ++ c.text ++ ") \x7b") a ['}'] := by
  have ho : Takes " (" [] [')'] := fun _ => rfl
  have hc : Takes ") \x7b" [')'] ['}'] := fun _ => rfl
  exact ((hx.append ho).append (Condition.balanced h |>.frame [')'])).append hc

theorem takes_for {counter start comparison stop advance : String} (hc : Balanced counter) (hs : Balanced start)
    (hr : Balanced comparison) (ht : Balanced stop) (ha : Balanced advance) :
    Takes ("for (" ++ counter ++ " = " ++ start ++ "; " ++ counter ++ " " ++ comparison ++ " " ++ stop ++ "; " ++
      advance ++ ") \x7b") [] ['}'] := by
  have ho : Takes "for (" [] [')'] := fun _ => rfl
  have he : Balanced " = " := fun _ => rfl
  have hm : Balanced "; " := fun _ => rfl
  have hb : Balanced " " := fun _ => rfl
  have hl : Takes ") \x7b" [')'] ['}'] := fun _ => rfl
  have inside {y z : String} (h : Takes y [] [')']) (g : Balanced z) : Takes (y ++ z) [] [')'] :=
    h.append (g.frame [')'])
  have first := inside (inside (inside (inside ho hc) he) hs) hm
  have second := inside (inside (inside (inside (inside (inside first hc) hb) hr) hb) ht) hm
  exact (inside second ha).append hl

theorem RangeHeader.takes {r : RangeHeader} (h : ∀ w ∈ r.words, w.IsLexical) : Takes r.text [] ['}'] := by
  obtain ⟨counter, start, stop, step, descending⟩ := r
  obtain ⟨hc, hw⟩ := List.forall_mem_cons.mp h
  obtain ⟨hs, hts⟩ := List.forall_mem_append.mp hw
  obtain ⟨ht, ha⟩ := List.forall_mem_append.mp hts
  have hr : Balanced (if descending then ">" else "<") := by split <;> exact fun _ => rfl
  refine takes_for hc.balanced (start.balanced hs) hr (stop.balanced ht) ?_
  cases step
  case none =>
    have hp : Balanced "++" := fun _ => rfl
    exact hc.balanced.append hp
  case some step =>
    have hp : Balanced " += " := fun _ => rfl
    exact (hc.balanced.append hp).append <| step.balanced <| by simpa [termsWords] using ha

theorem Stmt.balanced_declare {type : CType} {name : String} {value : Option Term}
    (h : ∀ w ∈ (declare type name value).words, w.IsLexical) : Balanced ((declare type name value).text level) := by
  obtain ⟨hn, hw⟩ := List.forall_mem_cons.mp h
  have hb : Balanced " " := fun _ => rfl
  have hs : Balanced ";" := fun _ => rfl
  have hd : Balanced (type.text ++ " " ++ name) := (balanced_type.append hb).append hn.balanced
  cases value
  case none => exact (hd.append hs).line
  case some t =>
    have ht : Balanced t.text := t.balanced <| by simpa [termsWords] using hw
    have he : Balanced " = " := fun _ => rfl
    exact (((hd.append he).append ht).append hs).line

theorem Stmt.balanced_assign {t u : Term} (h : ∀ w ∈ (assign t u).words, w.IsLexical) :
    Balanced ((assign t u).text level) := by
  obtain ⟨ht, hu⟩ := List.forall_mem_append.mp h
  have he : Balanced " = " := fun _ => rfl
  have hs : Balanced ";" := fun _ => rfl
  exact .line <| (((t.balanced ht).append he).append (u.balanced hu)).append hs

theorem Stmt.balanced_augment {t u : Term} {op : InfixOp} (h : ∀ w ∈ (augment t op u).words, w.IsLexical) :
    Balanced ((augment t op u).text level) := by
  obtain ⟨ht, hu⟩ := List.forall_mem_append.mp h
  -- The sign of a division does not stand alone: a slash could begin a comment.
  have ho : Balanced (" " ++ op.text ++ "= ") := by cases op <;> exact fun _ => rfl
  have hs : Balanced ";" := fun _ => rfl
  have hl := (((t.balanced ht).append ho).append (u.balanced hu)).append hs
  simp only [← String.append_assoc] at hl
  exact hl.line

theorem Stmt.balanced_term {t : Term} (h : ∀ w ∈ t.words, w.IsLexical) : Balanced ((term t).text level) := by
  have hs : Balanced ";" := fun _ => rfl
  exact .line <| (t.balanced h).append hs

theorem Stmt.balanced_return {t : Term} (h : ∀ w ∈ t.words, w.IsLexical) :
    Balanced ((Stmt.return t).text level) := by
  have hr : Balanced "return " := fun _ => rfl
  have hs : Balanced ";" := fun _ => rfl
  exact .line <| (hr.append <| t.balanced h).append hs

-- What stands between the branches of a conditional and its end.
def orelseText (level : Nat) : Option (List Stmt) → String
  | none      => ""
  | some body => Code.line level "\x7d else \x7b" ++ blockText (level + 1) body

theorem Stmt.text_if {branches : List (Condition × List Stmt)} {orelse : Option (List Stmt)} :
    (Stmt.if branches orelse).text level =
      branchesText level "if" branches ++ orelseText level orelse ++ Code.line level "\x7d" := by
  cases orelse <;> rfl

-- A block between the line that opens it and the line that closes it.
theorem balanced_block {y z : String} (h : Takes y [] ['}']) (hb : Balanced z) :
    Balanced (y ++ z ++ Code.line level "\x7d") := by
  have hc : Takes "\x7d" ['}'] [] := fun _ => rfl
  exact (h.append (hb.frame ['}'])).append hc.line

end

mutual

theorem Stmt.balanced : (s : Stmt) → {level : Nat} → (∀ t ∈ s.sequence, t.IsLexical) → Balanced (s.text level)
  | .declare .., _, h => Stmt.balanced_declare (h _ List.mem_cons_self).words
  | .assign .., _, h => Stmt.balanced_assign (h _ List.mem_cons_self).words
  | .augment .., _, h => Stmt.balanced_augment (h _ List.mem_cons_self).words
  | .term _, _, h => Stmt.balanced_term (h _ List.mem_cons_self).words
  | .return _, _, h => Stmt.balanced_return (h _ List.mem_cons_self).words
  | .returnUnsupported, _, _ => .indent fun _ => rfl
  | .break, _, _ | .continue, _, _ => .line fun _ => rfl
  | .while test body, level, h => by
    obtain ⟨hw, hb⟩ := List.forall_mem_cons.mp h
    have hx : Takes "while" [] [] := fun _ => rfl
    exact balanced_block (Condition.takes hx hw.words).line (block_balanced body hb)
  | .if branches orelse, level, h => by
    obtain ⟨hw, hb⟩ := List.forall_mem_cons.mp h
    obtain ⟨hb, ho⟩ := List.forall_mem_append.mp hb
    have hn : branches ≠ [] := fun he => hw.branched orelse (he ▸ rfl)
    have hx : Takes "if" [] [] := fun _ => rfl
    have hc : Takes "\x7d" ['}'] [] := fun _ => rfl
    have hl : Takes (branchesText level "if" branches ++ orelseText level orelse) [] ['}'] :=
      (branches_take branches hn hx (List.forall_mem_flatMap.mp hw.words) hb).append (orelse_takes orelse ho)
    exact Stmt.text_if ▸ hl.append hc.line
  | .forRange header body, level, h => by
    obtain ⟨hw, hb⟩ := List.forall_mem_cons.mp h
    exact balanced_block (RangeHeader.takes hw.words).line (block_balanced body hb)
  | .placeholder what, _, h => Placeholder.balanced <| (h _ List.mem_cons_self).words _ List.mem_cons_self

theorem block_balanced : (ss : List Stmt) → {level : Nat} → (∀ t ∈ blockSequence ss, t.IsLexical) →
    Balanced (blockText level ss)
  | [], _, _ => .empty
  | s :: ss, _, h => by
    obtain ⟨hs, hss⟩ := List.forall_mem_append.mp h
    exact .append (s.balanced hs) (block_balanced ss hss)

-- What stands before the first condition opens the first block.
theorem branches_take : (bs : List (Condition × List Stmt)) → {level : Nat} → {opening : String} → {a : List Char} →
    bs ≠ [] → Takes opening a [] → (∀ b ∈ bs, ∀ w ∈ b.fst.words, w.IsLexical) →
    (∀ t ∈ branchSequence bs, t.IsLexical) → Takes (branchesText level opening bs) a ['}']
  | (_, body) :: rest, level, _, _, _, ho, hw, h => by
    obtain ⟨hb, hr⟩ := List.forall_mem_append.mp h
    obtain ⟨hw, hws⟩ := List.forall_mem_cons.mp hw
    refine .append ((Condition.takes ho hw).line.append ((block_balanced body hb).frame ['}'])) ?_
    by_cases hn : rest = []
    case pos =>
      subst hn
      exact Balanced.empty.frame ['}']
    case neg =>
      have hx : Takes "\x7d else if" ['}'] [] := fun _ => rfl
      exact branches_take rest hn hx hws hr

theorem orelse_takes : (orelse : Option (List Stmt)) → {level : Nat} → (∀ t ∈ orelseSequence orelse, t.IsLexical) →
    Takes (orelseText level orelse) ['}'] ['}']
  | none, _, _ => Balanced.empty.frame ['}']
  | some body, _, h => by
    have he : Takes "\x7d else \x7b" ['}'] ['}'] := fun _ => rfl
    exact he.line.append ((block_balanced body h).frame ['}'])

end

def paramsText (params : List (CType × String)) : String :=
  if params.isEmpty then "void" else String.intercalate ", " (params.map fun p => p.fst.text ++ " " ++ p.snd)

theorem balanced_params {params : List (CType × String)} (h : ∀ p ∈ params, (Word.name p.snd).IsLexical) :
    Balanced (paramsText params) := by
  have hv : Balanced "void" := fun _ => rfl
  have hc : Balanced ", " := fun _ => rfl
  have hb : Balanced " " := fun _ => rfl
  unfold paramsText
  split
  case isTrue   => exact hv
  case isFalse  =>
    refine .intercalate hc <| List.forall_mem_map.mpr fun p hp => ?_
    exact (balanced_type.append hb).append (h p hp).balanced

-- The line that opens the block of a function, without its end.
def Function.head (f : Function) : String :=
  f.result.text ++ " " ++ f.name ++ "(" ++ paramsText f.params ++ ") \x7b"

theorem Function.takes_head {f : Function} (h : f.Lexical) : Takes f.head [] ['}'] := by
  have hb : Balanced " " := fun _ => rfl
  have ho : Takes "(" [] [')'] := fun _ => rfl
  have hl : Takes ") \x7b" [')'] ['}'] := fun _ => rfl
  have hn : Balanced (f.result.text ++ " " ++ f.name) := (balanced_type.append hb).append h.name.balanced
  exact ((Takes.append hn ho).append ((balanced_params h.params).frame [')'])).append hl

theorem Function.text_eq {f : Function} : f.text = f.head ++ "\n" ++ blockText 1 f.body ++ "\x7d\n\n" := by
  simp [text, head, paramsText, String.append_assoc, toString]

theorem Function.balanced {f : Function} (h : f.Lexical) : Balanced f.text := by
  have he : Takes "\n" ['}'] ['}'] := fun _ => rfl
  have hc : Takes "\x7d\n\n" ['}'] [] := fun _ => rfl
  have hb : Balanced (blockText 1 f.body) := block_balanced f.body h.body
  exact Function.text_eq ▸ (((Function.takes_head h).append he).append (hb.frame ['}'])).append hc

theorem Definition.balanced {d : Definition} {p : Program} (hd : d ∈ p.definitions) (h : p.Lexical) :
    Balanced d.text := by
  cases d
  case function f => exact Function.balanced (h.functions f hd)
  case placeholder what =>
    have he : Balanced "\n" := fun _ => rfl
    exact (Placeholder.balanced <| h.placeholders what hd).append he

-- The line that declares a primitive.
def prototype (type : CType) (name : String) : String :=
  type.text ++ " " ++ name ++ "();"

theorem balanced_prototype {type : CType} {name : String} (h : (Word.name name).IsLexical) :
    Balanced (prototype type name) := by
  have hb : Balanced " " := fun _ => rfl
  have he : Balanced "();" := fun _ => rfl
  exact ((balanced_type.append hb).append h.balanced).append he

def prototypeLine (q : CType × String) : String :=
  prototype q.fst q.snd ++ "\n"

namespace Program

variable {p : Program}

def header (p : Program) : String :=
  "#include <stdio.h>\n" ++ "#include <stdlib.h>\n" ++
    (if p.standardAssert then "#include <assert.h>\n" else "") ++ "\n"

def prototypes (p : Program) : String :=
  String.join (p.primitives.map prototypeLine)

-- What stands between the lines that open and close `main`.
def mainText (p : Program) : String :=
  (if (blockText 1 p.main).isEmpty then
      "    // No module-level statements; entry point for the model checker.\n"
    else blockText 1 p.main) ++ "    return 0;\n"

theorem text_eq : p.text = p.header ++ (if p.primitives.isEmpty then "" else p.prototypes ++ "\n") ++
    String.join (p.definitions.map Definition.text) ++ ("int main() \x7b\n" ++ p.mainText ++ "\x7d\n") := by
  have hp {f : CType × String → String} (hf : ∀ q, f q = prototypeLine q) :
      String.join (p.primitives.map f) = p.prototypes :=
    congrArg String.join <| List.map_congr_left fun q _ => hf q
  unfold text header mainText
  dsimp only
  rw [hp fun q => by simp [prototypeLine, prototype, toString, String.append_assoc]]
  simp only [List.isEmpty_map, String.append_assoc]

theorem balanced_header : Balanced p.header := by
  unfold header
  split <;> exact fun _ => rfl

set_option maxRecDepth 1000 in
theorem balanced_note : Balanced "    // No module-level statements; entry point for the model checker.\n" :=
  fun _ => rfl

theorem balanced_mainText (h : p.Lexical) : Balanced p.mainText := by
  have hr : Balanced "    return 0;\n" := fun _ => rfl
  unfold mainText
  split
  case isTrue   => exact balanced_note.append hr
  case isFalse  => exact Balanced.append (block_balanced p.main h.main) hr

theorem balanced (h : p.Lexical) : Balanced p.text := by
  have he : Balanced "\n" := fun _ => rfl
  have hp : Balanced p.prototypes :=
    .join <| List.forall_mem_map.mpr fun q hq => (balanced_prototype (h.primitives q hq)).append he
  have hd : Balanced (String.join (p.definitions.map Definition.text)) :=
    .join <| List.forall_mem_map.mpr fun d hd => Definition.balanced hd h
  have ho : Takes "int main() \x7b\n" [] ['}'] := fun _ => rfl
  have hc : Takes "\x7d\n" ['}'] [] := fun _ => rfl
  have hm := (ho.append <| (balanced_mainText h).frame ['}']).append hc
  rw [text_eq]
  refine .append (.append (.append balanced_header ?_) hd) hm
  split
  case isTrue   => exact .empty
  case isFalse  => exact hp.append he

end Program

theorem Balanced.closed {text : String} (h : Balanced text) : Code.closed text := by
  simpa [Code.closed] using h []

end Code

-- The C text of a source is closed.
theorem Artifact.text_closed {source : List Char} {recommended : List Check} {a : Artifact}
    (h : ofSource source recommended = .ok a) : Code.closed a.text := by
  unfold ofSource at h
  split at h
  case h_1 => cases h
  case h_2 m hm =>
    split at h
    case h_1 => cases h
    case h_2 t ht =>
      cases h
      exact (Code.Program.balanced <| Code.Translation.lexical ht <| Module.parse_lexical hm).closed

-- A string of three literals, and comments in place of what has no counterpart.
def quoted : List Char :=
  ("def f(a):\n    s = 'say \"hi\" /*' \"\\\\\" '''two\n\"lines\" \\\n// \\''''\n" ++
    "    with a as b:\n        pass\n    a[']'] = f(s, -1.5)\n    return a['\x7b'](s)\n" ++
    "if f('(', s)[0] @ 2:\n    assert f(\x7b1: s\x7d, \"x\")\n").toList

def quotedText : String :=
  "#include <stdio.h>\n#include <stdlib.h>\n#include <assert.h>\n\nint f(int a) \x7b\n" ++
    "    char* s = \"say \\\"hi\\\" /*\\\\two\\n\\\"lines\\\" \\\n// \\'\";\n    /* unsupported: with */\n" ++
    "    a[\"]\"] = f(s, (-1.5));\n    return 0;  // Could not convert complex return\n\x7d\n\n" ++
    "int main() \x7b\n    if (0 /* unsupported condition: operator '@' */) \x7b\n" ++
    "        /* unsupported: assertion over dict */\n    \x7d\n    return 0;\n\x7d\n"

theorem quoted_text_closed :
    ∃ a, Artifact.ofSource quoted [] = .ok a ∧ a.text = quotedText ∧ Code.closed a.text := by
  obtain ⟨_, rfl, ht⟩ : ∃ cs, quoted = cs ∧
      (Artifact.ofSource cs []).toOption.bind (fun a => some a.text) = some quotedText := by
    refine ⟨_, toList_append_of (toList_append_of String.toList_ofList String.toList_ofList) String.toList_ofList, ?_⟩
    decide +kernel
  obtain ⟨a, h, ht⟩ := exists_ok_of_toOption ht
  exact ⟨a, h, Option.some.inj ht, Artifact.text_closed h⟩

end PyVerify
