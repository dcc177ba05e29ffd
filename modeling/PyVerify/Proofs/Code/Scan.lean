import PyVerify.Proofs.Code.Literal

namespace PyVerify.Code

namespace Scan

-- Where a reader of C is.
inductive Mode where
  | code
  -- behind a slash, which may begin a comment
  | slash
  | string
  -- behind a backslash in a string
  | escape
  -- in a comment up to the end of the line
  | line
  | comment
  -- behind a star in a comment, which may end it
  | star
deriving DecidableEq, Repr

end Scan

structure Scan where
  mode    : Scan.Mode
  -- the brackets that are still to be closed, the innermost first
  pending : List Char
deriving DecidableEq, Repr

namespace Scan

-- A character of code. What no code here has is refused: a character in quotes, and a line that is continued.
-- Trigraphs are not replaced.
def read (pending : List Char) (c : Char) : Option Scan :=
  match c with
  | '"'             => some ⟨.string, pending⟩
  | '/'             => some ⟨.slash, pending⟩
  | '('             => some ⟨.code, ')' :: pending⟩
  | '['             => some ⟨.code, ']' :: pending⟩
  | '{'             => some ⟨.code, '}' :: pending⟩
  | ')' | ']' | '}' => if pending.head? = some c then some ⟨.code, pending.tail⟩ else none
  | '\x27' | '\\'   => none
  | _               => some ⟨.code, pending⟩

-- A string does not go over the end of a line, unless that is escaped. In a comment it is never escaped here.
def step (s : Scan) (c : Char) : Option Scan :=
  match s.mode, c with
  | .code, c        => read s.pending c
  | .slash, '*'     => some ⟨.comment, s.pending⟩
  | .slash, '/'     => some ⟨.line, s.pending⟩
  | .slash, c       => read s.pending c
  | .string, '"'    => some ⟨.code, s.pending⟩
  | .string, '\\'   => some ⟨.escape, s.pending⟩
  | .string, '\n' | .string, '\r' => none
  | .string, _      => some ⟨.string, s.pending⟩
  | .escape, _      => some ⟨.string, s.pending⟩
  | .line, '\n'     => some ⟨.code, s.pending⟩
  | .line, '\\'     => none
  | .line, _        => some ⟨.line, s.pending⟩
  | .star, '/'      => some ⟨.code, s.pending⟩
  | .comment, '\\' | .star, '\\'  => none
  | .comment, '*' | .star, '*'    => some ⟨.star, s.pending⟩
  | .comment, _ | .star, _        => some ⟨.comment, s.pending⟩

def run (s : Scan) (cs : List Char) : Option Scan :=
  cs.foldlM step s

end Scan

-- All brackets, strings and comments of a text are closed, and in the right order.
def closed (text : String) : Bool :=
  Scan.run ⟨.code, []⟩ text.toList = some ⟨.code, []⟩

example : closed "f(\"(\\\"\" /* ] \" */)[0] / 2; // )\n" ∧ ¬closed "f(\")" ∧ ¬closed "([)]" ∧ ¬closed "x /* y" := by decide

namespace Scan

variable {s t u : Scan} {cs ds : List Char}

theorem run_append : run s (cs ++ ds) = (run s cs).bind (run · ds) :=
  List.foldlM_append

theorem run_trans (h : run s cs = some t) (g : run t ds = some u) : run s (cs ++ ds) = some u := by
  rw [run_append, h]
  exact g

end Scan

-- A text of code that is read from one stack of brackets to another one, whatever is below.
def Takes (text : String) (a b : List Char) : Prop :=
  ∀ rest, Scan.run ⟨.code, a ++ rest⟩ text.toList = some ⟨.code, b ++ rest⟩

abbrev Balanced (text : String) : Prop :=
  Takes text [] []

namespace Takes

variable {x y z : String} {a b c : List Char}

theorem append (h : Takes x a b) (g : Takes y b c) : Takes (x ++ y) a c := by
  intro rest
  rw [String.toList_append]
  exact Scan.run_trans (h rest) (g rest)

theorem frame (h : Takes x a b) (c : List Char) : Takes x (a ++ c) (b ++ c) := by
  intro rest
  rw [List.append_assoc, List.append_assoc]
  exact h (c ++ rest)

end Takes

-- The characters of code that a reader looks for.
def delimiters : List Char :=
  ['"', '/', '(', '[', '{', ')', ']', '}', '\x27', '\\']

def isPlain (c : Char) : Bool :=
  c ∉ delimiters

theorem Scan.read_plain {c : Char} {pending : List Char} (h : isPlain c) :
    read pending c = some ⟨.code, pending⟩ := by
  unfold read
  split <;> first | rfl | cases h

-- In a comment, that is.
def Scan.Mode.IsComment (m : Mode) : Prop :=
  m = .comment ∨ m = .star

theorem Scan.run_remark {cs : List Char} {m : Mode} (pending : List Char) (hm : m.IsComment)
    (h : ∀ c ∈ cs, c ≠ '/' ∧ c ≠ '\\') : ∃ k : Mode, k.IsComment ∧ run ⟨m, pending⟩ cs = some ⟨k, pending⟩ := by
  induction cs generalizing m
  case nil => exact ⟨m, hm, rfl⟩
  case cons c cs hi =>
    obtain ⟨⟨hs, hb⟩, hcs⟩ := List.forall_mem_cons.mp h
    obtain ⟨k, hk, hc⟩ : ∃ k : Mode, k.IsComment ∧ step ⟨m, pending⟩ c = some ⟨k, pending⟩ := by
      by_cases hc : c = '*'
      case pos => exact ⟨.star, .inr rfl, by obtain rfl | rfl := hm <;> simp [step, hc]⟩
      case neg => exact ⟨.comment, .inl rfl, by obtain rfl | rfl := hm <;> grind [step]⟩
    obtain ⟨l, hl, hr⟩ := hi hk hcs
    refine ⟨l, hl, ?_⟩
    rw [run, List.foldlM_cons, hc]
    exact hr

namespace Balanced

variable {x y : String} {l : List String}

theorem empty : Balanced "" :=
  fun _ => rfl

theorem append (h : Balanced x) (g : Balanced y) : Balanced (x ++ y) :=
  Takes.append h g

theorem plain (h : ∀ c ∈ x.toList, isPlain c) : Balanced x := by
  intro rest
  generalize x.toList = cs at h
  induction cs
  case nil => rfl
  case cons c cs hi =>
    obtain ⟨hc, hs⟩ := List.forall_mem_cons.mp h
    have hc : Scan.step ⟨.code, rest⟩ c = some ⟨.code, rest⟩ := Scan.read_plain hc
    rw [List.nil_append] at hi ⊢
    rw [Scan.run, List.foldlM_cons, hc]
    exact hi hs

theorem parens (h : Balanced x) : Balanced ("(" ++ x ++ ")") := by
  have ho : Takes "(" [] [')'] := fun _ => rfl
  have hc : Takes ")" [')'] [] := fun _ => rfl
  exact (ho.append <| h.frame [')']).append hc

theorem brackets (h : Balanced x) : Balanced ("[" ++ x ++ "]") := by
  have ho : Takes "[" [] [']'] := fun _ => rfl
  have hc : Takes "]" [']'] [] := fun _ => rfl
  exact (ho.append <| h.frame [']']).append hc

theorem intercalate (hs : Balanced x) (h : ∀ y ∈ l, Balanced y) : Balanced (String.intercalate x l) := by
  induction l
  case nil => exact .empty
  case cons y l hi =>
    obtain ⟨hy, hl⟩ := List.forall_mem_cons.mp h
    cases l
    case nil => simpa using hy
    case cons =>
      rw [String.intercalate_cons_cons]
      exact (hy.append hs).append (hi hl)

theorem join (h : ∀ y ∈ l, Balanced y) : Balanced (String.join l) := by
  induction l
  case nil => exact .empty
  case cons y l hi =>
    obtain ⟨hy, hl⟩ := List.forall_mem_cons.mp h
    rw [String.join_cons]
    exact hy.append (hi hl)

end Balanced

-- A text that opens a comment, a remark and the end of the comment.
theorem Balanced.remark {x message : String}
    (hx : ∀ rest, Scan.run ⟨.code, rest⟩ x.toList = some ⟨.comment, rest⟩)
    (h : ∀ c ∈ message.toList, c ≠ '/' ∧ c ≠ '\\') : Balanced (x ++ message ++ " */") := by
  intro rest
  obtain ⟨k, hk, hr⟩ := Scan.run_remark rest (.inl rfl) h
  simp only [String.toList_append]
  refine Scan.run_trans (Scan.run_trans (hx rest) hr) ?_
  obtain rfl | rfl := hk <;> rfl

theorem Scan.run_literalBody {cs pending : List Char} (h : isEscaped cs) :
    run ⟨.string, pending⟩ (literalBody cs) = some ⟨.string, pending⟩ := by
  fun_induction literalBody cs
  case case1 => rfl
  case case2 => cases h
  case case7 c cs hn hb hq hl hr hi =>
    have hc := ne_backslash hn hb
    have hs : step ⟨.string, pending⟩ c = some ⟨.string, pending⟩ := by grind [step]
    rw [run, List.foldlM_cons, hs]
    exact hi (isEscaped_cons hc ▸ h)
  -- The others are escaped, or leave nothing behind.
  all_goals exact ‹isEscaped _ → _› h

theorem Balanced.string {body : List Char} (h : isEscaped body) :
    Balanced ("\"" ++ String.ofList (literalBody body) ++ "\"") := by
  intro rest
  simp only [String.toList_append, String.toList_ofList]
  exact Scan.run_trans (Scan.run_trans (t := ⟨.string, rest⟩) rfl (Scan.run_literalBody h)) rfl

end PyVerify.Code
