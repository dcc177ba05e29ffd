import PyVerify.Proofs.Code.Closed
import PyVerify.Proofs.Code.Declared

namespace PyVerify

namespace Code

open PyVerify.Token (Lexeme.isNameChar)

namespace Scan

variable {s t : Scan} {cs : List Char} {c : Char} {m k : Mode} {a b rest : List Char}

-- What is below the brackets that are opened and closed does not matter.
theorem step_frame (h : step ⟨m, a⟩ c = some ⟨k, b⟩) : step ⟨m, a ++ rest⟩ c = some ⟨k, b ++ rest⟩ := by
  have hr : read a c = some ⟨k, b⟩ → read (a ++ rest) c = some ⟨k, b ++ rest⟩ := by
    unfold read
    cases a <;> split <;> grind
  unfold step at h ⊢
  split at h <;> grind

theorem run_frame (h : run ⟨m, a⟩ cs = some ⟨k, b⟩) : run ⟨m, a ++ rest⟩ cs = some ⟨k, b ++ rest⟩ := by
  induction cs generalizing m a
  case nil =>
    cases h
    rfl
  case cons c cs hi =>
    rw [run, List.foldlM_cons] at h ⊢
    cases hs : step ⟨m, a⟩ c
    case none => simp [hs] at h
    case some s =>
      rw [hs] at h
      rw [step_frame hs]
      exact hi h

end Scan

def EndsLine (x : List Char) : Prop :=
  ∀ c ∈ x.getLast?, c = '\n'

-- A line of a text that begins outside of all brackets, strings and comments, with what stands before
-- and after it.
structure OuterLine (text before line after : List Char) : Prop where
  split   : text = before ++ (line ++ '\n' :: after)
  begins  : EndsLine before
  outside : Scan.run ⟨.code, []⟩ before = some ⟨.code, []⟩
  single  : '\n' ∉ line

-- A text of whole lines, which ends where it began: outside of everything.
structure IsLines (x : List Char) : Prop where
  closed  : Scan.run ⟨.code, []⟩ x = some ⟨.code, []⟩
  ends    : EndsLine x

section

variable {x y before line after : List Char}

theorem EndsLine.mem (h : EndsLine x) (hx : x ≠ []) : '\n' ∈ x := by
  have hl := List.getLast?_eq_some_getLast hx
  exact h _ hl ▸ List.getLast_mem hx

theorem EndsLine.append_newline {x : String} : EndsLine (x ++ "\n").toList := by
  simp [EndsLine]

theorem EndsLine.of_append (h : EndsLine (x ++ y)) : EndsLine y :=
  fun c hc => h c (List.mem_getLast?_append_of_mem_getLast? hc)

theorem EndsLine.nil : EndsLine [] := by
  simp [EndsLine]

theorem IsLines.nil : IsLines [] where
  closed  := rfl
  ends    := .nil

theorem IsLines.append (hx : IsLines x) (hy : IsLines y) : IsLines (x ++ y) where
  closed  := Scan.run_trans hx.closed hy.closed
  ends    := by
    by_cases hn : y = []
    case pos => simpa [hn] using hx.ends
    case neg => simpa [EndsLine, List.getLast?_append_of_ne_nil _ hn] using hy.ends

-- A line of two texts is a line of one of them.
theorem OuterLine.append_cases (hx : IsLines x) (h : OuterLine (x ++ y) before line after) :
    (∃ rest, OuterLine x before line rest) ∨ ∃ rest, before = x ++ rest ∧ OuterLine y rest line after := by
  obtain ⟨z, rfl, hy⟩ | ⟨z, rfl, hl⟩ := List.append_eq_append_iff.mp h.split
  · have ho := h.outside
    rw [Scan.run_append, hx.closed] at ho
    exact .inr ⟨z, rfl, hy, h.begins.of_append, ho, h.single⟩
  · by_cases hz : z = []
    case pos =>
      subst hz
      exact .inr ⟨[], by simp, by simpa using hl.symm, .nil, rfl, h.single⟩
    case neg =>
      have hm : '\n' ∈ z := hx.ends.of_append.mem hz
      obtain ⟨w, rfl, hw⟩ | ⟨w, hw, -⟩ := List.append_eq_append_iff.mp hl
      · cases w
        case nil => exact absurd (by simpa using hm) h.single
        case cons c w =>
          obtain rfl : '\n' = c := (List.cons.inj hw).left
          exact .inl ⟨w, rfl, h.begins, h.outside, h.single⟩
      · exact absurd (hw ▸ List.mem_append_left w hm) h.single

theorem takeWhile_line (hx : '\n' ∉ x) : (x ++ '\n' :: y).takeWhile (· ≠ '\n') = x := by
  have hn : ∀ c ∈ x, decide (c ≠ '\n') = true := by grind
  rw [List.takeWhile_append_of_pos hn]
  simp

-- A line begins with the text, or behind its first line.
theorem OuterLine.line_cases (hx : '\n' ∉ x) (h : OuterLine (x ++ '\n' :: y) before line after) :
    before = [] ∧ line = x ∨
      ∃ rest, before = x ++ '\n' :: rest ∧ y = rest ++ (line ++ '\n' :: after) ∧ EndsLine rest := by
  by_cases hb : before = []
  case pos =>
    subst hb
    have hl := congrArg (List.takeWhile (· ≠ '\n')) h.split
    rw [takeWhile_line hx, List.nil_append, takeWhile_line h.single] at hl
    exact .inl ⟨rfl, hl.symm⟩
  case neg =>
    obtain ⟨start, rest, rfl, hs⟩ := List.eq_append_cons_of_mem (h.begins.mem hb)
    have hr := h.split
    rw [List.append_assoc, List.cons_append] at hr
    have hl := congrArg (List.takeWhile (· ≠ '\n')) hr
    rw [takeWhile_line hx, takeWhile_line hs] at hl
    subst hl
    have he : EndsLine ((x ++ ['\n']) ++ rest) := by simpa using h.begins
    exact .inr ⟨rest, rfl, by simpa using hr, he.of_append⟩

theorem OuterLine.eq_of_single (hx : '\n' ∉ x) (h : OuterLine (x ++ ['\n']) before line after) :
    before = [] ∧ line = x := by
  obtain hl | ⟨rest, -, hr, -⟩ := h.line_cases hx
  · exact hl
  · simp at hr

end

-- The names of a program are words.
theorem Word.IsLexical.isNameChar {name : String} (h : (Word.name name).IsLexical) :
    ∀ c ∈ name.toList, Lexeme.isNameChar c := by
  obtain rfl | ⟨ident, hi, rfl⟩ := h
  case inl => exact List.all_eq_true.mp (by decide)
  case inr =>
    unfold identifier
    split
    case isTrue => exact List.all_eq_true.mp (by decide)
    case isFalse =>
      split
      case isTrue =>
        rw [String.toList_append, List.forall_mem_append]
        exact ⟨List.all_eq_true.mp (by decide), hi.word⟩
      case isFalse => exact hi.word

theorem Word.IsLexical.not_mem {name : String} {c : Char} (h : (Word.name name).IsLexical)
    (hc : Lexeme.isNameChar c = false) : c ∉ name.toList :=
  fun hm => by simpa [hc] using h.isNameChar c hm

theorem CType.text_injective {type other : CType} (h : type.text = other.text) : type = other := by
  cases type <;> cases other <;> first | rfl | exact absurd h (by decide)

theorem CType.not_mem_text {type : CType} {c : Char} (hn : Lexeme.isNameChar c = false) (hc : c ∉ [' ', '*']) :
    c ∉ type.text.toList := by
  have hw : ∀ d ∈ type.text.toList, Lexeme.isNameChar d || [' ', '*'].contains d := by
    refine List.all_eq_true.mp ?_
    cases type <;> decide
  exact fun hm => by simpa [hn, List.contains_eq_mem, hc] using hw c hm

section

variable {type other : CType} {name second : String}

theorem toList_prototype :
    (prototype type name).toList = (type.text.toList ++ ' ' :: name.toList) ++ ['(', ')', ';'] := by
  simp [prototype]

theorem getLast?_prototype : (prototype type name).toList.getLast? = some ';' := by
  rw [toList_prototype]
  exact List.getLast?_append_of_ne_nil _ (List.cons_ne_nil _ _)

theorem paren_mem_prototype : '(' ∈ (prototype type name).toList := by
  simp [toList_prototype]

theorem not_mem_prototype {c : Char} (h : (Word.name name).IsLexical) (hn : Lexeme.isNameChar c = false)
    (hc : c ∉ [' ', '*', '(', ')', ';']) : c ∉ (prototype type name).toList := by
  have ht : c ∉ type.text.toList := CType.not_mem_text hn (by grind)
  have hm := h.not_mem hn
  rw [toList_prototype]
  grind

theorem toList_prototypeLine {q : CType × String} :
    (prototypeLine q).toList = (prototype q.fst q.snd).toList ++ ['\n'] :=
  String.toList_append

theorem isLines_prototypeLine {q : CType × String} (h : (Word.name q.snd).IsLexical) :
    IsLines (prototypeLine q).toList where
  closed  := (balanced_prototype h).append (y := "\n") (fun _ => rfl) []
  ends    := .append_newline

-- The name begins behind the last blank.
theorem prototype_injective (h : (Word.name name).IsLexical) (hs : (Word.name second).IsLexical)
    (he : (prototype type name).toList = (prototype other second).toList) : type = other ∧ name = second := by
  have last {x y z w : List Char} (hy : ' ' ∉ y) (h : x ++ ' ' :: y = z ++ ' ' :: w) : z.length ≤ x.length := by
    obtain ⟨r, rfl, hr⟩ | ⟨r, rfl, -⟩ := List.append_eq_append_iff.mp h
    case inl =>
      cases r
      case nil        => simp
      case cons c r   => exact absurd (by simp [(List.cons.inj hr).right]) hy
    case inr => simp
  rw [toList_prototype, toList_prototype, List.append_left_inj] at he
  have hn : ' ' ∉ name.toList := h.not_mem (by decide)
  have hm : ' ' ∉ second.toList := hs.not_mem (by decide)
  obtain ⟨ht, he⟩ := List.append_inj he (Nat.le_antisymm (last hm he.symm) (last hn he))
  exact ⟨CType.text_injective <| String.toList_inj.mp ht, String.toList_inj.mp (List.cons.inj he).right⟩

end

-- Whole lines of a text, none of which declares the primitive.
structure Without (name : String) (x : List Char) : Prop extends IsLines x where
  free : ∀ type before after, ¬OuterLine x before (prototype type name).toList after

namespace Without

variable {name : String} {x y : List Char}

theorem nil : Without name [] where
  toIsLines := .nil
  free _ _ _ h := by simpa using h.split

theorem append (hx : Without name x) (hy : Without name y) : Without name (x ++ y) where
  toIsLines := hx.toIsLines.append hy.toIsLines
  free type before after h := by
    obtain ⟨rest, h⟩ | ⟨rest, -, h⟩ := h.append_cases hx.toIsLines
    · exact hx.free _ _ _ h
    · exact hy.free _ _ _ h

theorem flatMap {α : Type} {l : List α} {f : α → List Char} (h : ∀ a ∈ l, Without name (f a)) :
    Without name (l.flatMap f) := by
  induction l
  case nil => exact .nil
  case cons a l hi =>
    obtain ⟨ha, hl⟩ := List.forall_mem_cons.mp h
    exact ha.append (hi hl)

theorem of_not_mem (hx : IsLines x) (hp : '(' ∉ x) : Without name x where
  toIsLines := hx
  free type before after h := by
    refine hp ?_
    rw [h.split]
    simp [paren_mem_prototype]

theorem newline : Without name ['\n'] :=
  .of_not_mem ⟨rfl, by simp [EndsLine]⟩ (by decide)

-- A block in braces, behind the line that opens it.
theorem block {first inner : List Char} (hf : '\n' ∉ first) (hb : first.getLast? = some '{')
    (ho : Scan.run ⟨.code, []⟩ (first ++ ['\n']) = some ⟨.code, ['}']⟩)
    (hi : Scan.run ⟨.code, []⟩ inner = some ⟨.code, []⟩) :
    Without name (first ++ '\n' :: (inner ++ ['}', '\n'])) where
  closed := by
    have hc : Scan.run ⟨.code, [] ++ ['}']⟩ ['}', '\n'] = some ⟨.code, []⟩ := rfl
    simpa using Scan.run_trans ho (Scan.run_trans (Scan.run_frame hi) hc)
  ends := by simp [EndsLine, List.getLast?_append, List.getLast?_cons]
  free type before after h := by
    obtain ⟨rfl, hl⟩ | ⟨rest, rfl, hr, he⟩ := h.line_cases hf
    · simp [←hl, getLast?_prototype] at hb
    · have hs := h.outside
      rw [List.append_cons, Scan.run_append, ho] at hs
      have hs : Scan.run ⟨.code, ['}']⟩ rest = some ⟨.code, []⟩ := hs
      -- The brace is still open at the end of what is inside, and the rest is too short for a line.
      have inside {w : List Char} (hw : inner = rest ++ w) : False := by
        rw [hw, Scan.run_append, Option.bind_eq_some_iff] at hi
        obtain ⟨s, hi, -⟩ := hi
        simpa using (Scan.run_frame hi).symm.trans hs
      obtain ⟨w, rfl, hw⟩ | ⟨w, hw, -⟩ := List.append_eq_append_iff.mp hr
      · match w with
        | [] => exact inside (w := []) (by simp)
        | [c] =>
          obtain rfl : '}' = c := (List.cons.inj hw).left
          exact absurd (he.of_append _ rfl) (by decide)
        | _ :: _ :: w => simp [toList_prototype] at hw
      · exact inside hw

end Without

theorem not_mem_intercalate {x : String} {l : List String} {c : Char} (hx : c ∉ x.toList)
    (h : ∀ y ∈ l, c ∉ y.toList) : c ∉ (String.intercalate x l).toList := by
  induction l
  case nil => exact List.not_mem_nil
  case cons y l hi =>
    obtain ⟨hy, hl⟩ := List.forall_mem_cons.mp h
    cases l
    case nil => simpa using hy
    case cons =>
      rw [String.intercalate_cons_cons]
      simp only [String.toList_append, List.mem_append, not_or]
      exact ⟨⟨hy, hx⟩, hi hl⟩

theorem Function.newline_not_mem_head {f : Function} (h : f.Lexical) : '\n' ∉ f.head.toList := by
  have ht {type : CType} : '\n' ∉ type.text.toList := CType.not_mem_text (by decide) (by decide)
  have hn {name : String} (h : (Word.name name).IsLexical) : '\n' ∉ name.toList := h.not_mem (by decide)
  have hp : '\n' ∉ (paramsText f.params).toList := by
    unfold paramsText
    split
    case isTrue   => decide
    case isFalse  =>
      refine not_mem_intercalate (by decide) (List.forall_mem_map.mpr fun p hm => ?_)
      simp [ht, hn (h.params p hm)]
  simp [head, ht, hn h.name, hp]

theorem Function.without {f : Function} {name : String} (h : f.Lexical) : Without name f.text.toList := by
  have hh := Function.takes_head h []
  have hb : Balanced (blockText 1 f.body) := block_balanced f.body h.body
  have hl : f.head.toList.getLast? = some '{' := by
    rw [head, String.toList_append]
    exact List.getLast?_append_of_ne_nil _ (by simp : ") \x7b".toList ≠ [])
  have ht : f.text.toList =
      (f.head.toList ++ '\n' :: ((blockText 1 f.body).toList ++ ['}', '\n'])) ++ ['\n'] := by
    simp [text_eq]
  rw [ht]
  exact .append (.block (newline_not_mem_head h) hl (Scan.run_trans hh rfl) (hb [])) .newline

theorem Definition.without {d : Definition} {m : Module} {t : Translation} {name : String}
    (h : Translation.ofModule? m = some t) (hl : t.program.Lexical) (hd : d ∈ t.program.definitions) :
    Without name d.text.toList := by
  cases d
  case function f => exact Function.without (hl.functions f hd)
  case placeholder what =>
    have hb : Balanced (text (.placeholder what)) := Definition.balanced hd hl
    refine .of_not_mem ⟨hb [], by simp [EndsLine, text]⟩ ?_
    rw [Translation.definitions_eq h, List.mem_filterMap] at hd
    obtain ⟨s, -, hd⟩ := hd
    unfold definition? at hd
    split at hd
    all_goals cases hd
    case h_2.refl => exact (by decide : '(' ∉ (text (.placeholder (.kind "function definition"))).toList)
    case h_3.refl => exact (by decide : '(' ∉ (text (.placeholder (.kind "class definition"))).toList)

namespace Program

variable {p : Program} {name : String}

theorem without_header : Without name p.header.toList := by
  refine .of_not_mem ⟨balanced_header [], ?_⟩ ?_
  · exact .append_newline
  · unfold header
    split <;> decide

theorem brace_not_mem_header : '{' ∉ p.header.toList := by
  unfold header
  split <;> decide

theorem without_main (h : p.Lexical) : Without name ("int main() \x7b\n" ++ p.mainText ++ "\x7d\n").toList := by
  have ht : ("int main() \x7b\n" ++ p.mainText ++ "\x7d\n").toList =
      "int main() \x7b".toList ++ '\n' :: (p.mainText.toList ++ ['}', '\n']) := by
    simp
  exact ht ▸ .block (by decide) (by decide) rfl (balanced_mainText h [])

theorem without_prototypeLine {q : CType × String} (h : (Word.name q.snd).IsLexical)
    (hn : (Word.name name).IsLexical) (hne : q.snd ≠ name) : Without name (prototypeLine q).toList where
  toIsLines := isLines_prototypeLine h
  free _ _ _ hl := by
    rw [toList_prototypeLine] at hl
    have hs := hl.eq_of_single (not_mem_prototype h (by decide) (by decide))
    exact hne (prototype_injective hn h hs.right).right.symm

theorem brace_not_mem_prototypeLine {q : CType × String} (h : (Word.name q.snd).IsLexical) :
    '{' ∉ (prototypeLine q).toList := by
  have hc : '{' ∉ (prototype q.fst q.snd).toList := not_mem_prototype h (by decide) (by decide)
  simpa [toList_prototypeLine] using hc

end Program

-- Of the lines of a text that are outside of all brackets, strings and comments, one declares the primitive,
-- and that line is before all blocks.
def DeclaredOnce (text : String) (type : CType) (name : String) : Prop :=
  ∃ before after, OuterLine text.toList before (prototype type name).toList after ∧ '{' ∉ before ∧
    ∀ other start rest, OuterLine text.toList start (prototype other name).toList rest →
      start = before ∧ other = type

namespace Translation

variable {m : Module} {t : Translation} {type : CType} {name : String}

theorem without_definitions (h : ofModule? m = some t) (hl : t.program.Lexical) :
    Without name (String.join (t.program.definitions.map Definition.text)).toList := by
  rw [String.toList_join, List.flatMap_map]
  exact .flatMap fun d hd => d.without h hl hd

section

variable {qs rs : List (CType × String)}

theorem name_of_others (hl : t.program.Lexical) (hs : t.program.primitives = qs ++ (type, name) :: rs) :
    ∀ q ∈ qs ++ rs, (Word.name q.snd).IsLexical :=
  fun q hq => hl.primitives q (by grind)

theorem without_others (h : ofModule? m = some t) (hl : t.program.Lexical)
    (hs : t.program.primitives = qs ++ (type, name) :: rs) :
    ∀ q ∈ qs ++ rs, Without name (prototypeLine q).toList := by
  have hn : (Word.name name).IsLexical := hl.primitives (type, name) (by simp [hs])
  have hd := primitives_nodup h
  rw [hs, List.map_append, List.map_cons, List.nodup_middle, ←List.map_append] at hd
  intro q hq
  have hm : q.snd ∈ (qs ++ rs).map Prod.snd := List.mem_map_of_mem hq
  exact Program.without_prototypeLine (name_of_others hl hs q hq) hn
    fun he => (List.nodup_cons.mp hd).left (he ▸ hm)

end

-- The line of a primitive with what is before and behind it.
theorem text_split (h : ofModule? m = some t) (hl : t.program.Lexical)
    (hp : (type, name) ∈ t.program.primitives) :
    ∃ front back, t.program.text.toList = front ++ ((prototypeLine (type, name)).toList ++ back) ∧
      Without name front ∧ Without name back ∧ '{' ∉ front := by
  obtain ⟨qs, rs, hs⟩ := List.append_of_mem hp
  obtain ⟨hf, hb⟩ := List.forall_mem_append.mp (without_others h hl hs)
  refine ⟨t.program.header.toList ++ qs.flatMap (prototypeLine · |>.toList),
    rs.flatMap (prototypeLine · |>.toList) ++ (['\n'] ++ (_ ++ _)), ?text,
    Program.without_header.append (.flatMap hf),
    (Without.flatMap hb).append (.append .newline ((without_definitions h hl).append (Program.without_main hl))), ?brace⟩
  case text =>
    have ho : t.program.prototypes.toList = qs.flatMap (prototypeLine · |>.toList) ++
        ((prototypeLine (type, name)).toList ++ rs.flatMap (prototypeLine · |>.toList)) := by
      simp [Program.prototypes, hs, String.toList_join, List.flatMap_map]
    simp [Program.text_eq, hs, ho]
  case brace =>
    rw [List.mem_append, List.mem_flatMap, not_or]
    refine ⟨Program.brace_not_mem_header, fun ⟨q, hq, hc⟩ => ?_⟩
    exact Program.brace_not_mem_prototypeLine (name_of_others hl hs q (List.mem_append_left _ hq)) hc

theorem declaredOnce (h : ofModule? m = some t) (hl : t.program.Lexical)
    (hp : (type, name) ∈ t.program.primitives) : DeclaredOnce t.program.text type name := by
  obtain ⟨front, back, ht, hf, hb, hc⟩ := text_split h hl hp
  have hn := hl.primitives _ hp
  have hs : '\n' ∉ (prototype type name).toList := not_mem_prototype hn (by decide) (by decide)
  rw [DeclaredOnce, ht]
  refine ⟨front, back, ⟨by simp [toList_prototypeLine], hf.ends, hf.closed, hs⟩, hc, ?_⟩
  intro other start rest h
  obtain ⟨_, hx⟩ | ⟨start, rfl, hx⟩ := h.append_cases hf.toIsLines
  · exact (hf.free _ _ _ hx).elim
  obtain ⟨_, hy⟩ | ⟨start, rfl, hy⟩ := hx.append_cases (isLines_prototypeLine hn)
  · rw [toList_prototypeLine] at hy
    obtain ⟨rfl, he⟩ := hy.eq_of_single hs
    exact ⟨List.append_nil _, (prototype_injective hn hn he).left⟩
  · exact (hb.free _ _ _ hy).elim

end Translation

end Code

namespace Artifact

open Code (Stands Translation Verifier DeclaredOnce primitiveType)

variable {source : List Char} {recommended : List Check} {a : Artifact}

theorem exists_translation (h : ofSource source recommended = .ok a) :
    ∃ m t, Module.parse source = .ok m ∧ Translation.ofModule? m = some t ∧ a = ofTranslation t recommended := by
  unfold ofSource at h
  split at h
  case h_1 => cases h
  case h_2 m hm =>
    split at h
    case h_1 => cases h
    case h_2 t ht =>
      cases h
      exact ⟨m, t, hm, ht, rfl⟩

-- Each primitive that the code calls for the source is declared once in the text, with its type, and before
-- all functions.
theorem primitives_declared_once (h : ofSource source recommended = .ok a) :
    ∃ m t, Module.parse source = .ok m ∧ Translation.ofModule? m = some t ∧ a.text = t.program.text ∧
      List.Forall₂ (Stands (.ofModule m)) m.origins t.program.calls ∧
      ∀ o ∈ m.origins, ∀ p, o.primitive? (.ofModule m) = some p → Verifier.isNondet p →
        .call p [] ∈ t.program.calls ∧ DeclaredOnce a.text (primitiveType p) p := by
  obtain ⟨m, t, hm, ht, rfl⟩ := exists_translation h
  refine ⟨m, t, hm, ht, rfl, Translation.calls_stand ht, fun o ho p hp hn => ⟨Translation.mem_calls ht ho hp hn, ?_⟩⟩
  have hl := Translation.lexical ht <| Module.parse_lexical hm
  exact Translation.declaredOnce ht hl <| Translation.mem_primitives ht ho hp hn

end Artifact

-- Primitives through a second name of the module, a new name and all names at once.
def drawn : List Char :=
  ("import esbmc as e\nfrom esbmc import nondet_uint as pick\nfrom esbmc import *\n" ++
    "def f(a):\n    while a < e.nondet_int():\n        if nondet_bool():\n            a = pick()\n" ++
    "    return a\nassert f(pick()) == e.nondet_int()\n").toList

def drawnText : String :=
  "#include <stdio.h>\n#include <stdlib.h>\n\nint nondet_int();\n_Bool nondet_bool();\n" ++
    "unsigned int nondet_uint();\n\nunsigned int f(unsigned int a) \x7b\n" ++
    "    while (a < nondet_int()) \x7b\n        if (nondet_bool()) \x7b\n            a = nondet_uint();\n" ++
    "        \x7d\n    \x7d\n    return a;\n\x7d\n\nint main() \x7b\n" ++
    "    __ESBMC_assert(f(nondet_uint()) == nondet_int(), \"assertion\");\n    return 0;\n\x7d\n"

theorem drawn_declared_once :
    ∃ a m, Artifact.ofSource drawn [] = .ok a ∧ a.text = drawnText ∧ Module.parse drawn = .ok m ∧
      m.origins.filterMap (Code.Origin.primitive? <| .ofModule m) =
        ["nondet_int", "nondet_bool", "nondet_uint", "nondet_uint", "nondet_int"] ∧
      Code.DeclaredOnce a.text .bool "nondet_bool" ∧ Code.DeclaredOnce a.text .unsignedInt "nondet_uint" ∧
      Code.DeclaredOnce a.text .int "nondet_int" := by
  obtain ⟨_, rfl, ht, ho⟩ : ∃ cs, drawn = cs ∧
      (Artifact.ofSource cs []).toOption.bind (fun a => some a.text) = some drawnText ∧
      (Module.parse cs).toOption.bind (fun m => some (m.origins.filterMap (Code.Origin.primitive? <| .ofModule m))) =
        some ["nondet_int", "nondet_bool", "nondet_uint", "nondet_uint", "nondet_int"] := by
    refine ⟨_, toList_append_of (toList_append_of String.toList_ofList String.toList_ofList) String.toList_ofList,
      ?text, ?origins⟩
    case text     => decide +kernel
    case origins  => decide +kernel
  obtain ⟨a, h, ht⟩ := exists_ok_of_toOption ht
  obtain ⟨m, t, hm, -, -, -, hd⟩ := Artifact.primitives_declared_once h
  obtain ⟨_, hm', ho⟩ := exists_ok_of_toOption ho
  obtain rfl := Except.ok.inj (hm.symm.trans hm')
  have ho := Option.some.inj ho
  have declared (p : String) (type : Code.CType) (hp : Code.Verifier.isNondet p ∧ Code.primitiveType p = type)
      (hm : p ∈ ["nondet_int", "nondet_bool", "nondet_uint", "nondet_uint", "nondet_int"]) :
      Code.DeclaredOnce a.text type p := by
    obtain ⟨hn, rfl⟩ := hp
    rw [←ho] at hm
    obtain ⟨o, ho, hp⟩ := List.mem_filterMap.mp hm
    exact (hd o ho p hp hn).right
  exact ⟨a, m, h, Option.some.inj ht, hm, ho, declared _ _ (by decide +kernel) (by simp),
    declared _ _ (by decide +kernel) (by simp), declared _ _ (by decide +kernel) (by simp)⟩

end PyVerify
