import PyVerify.Proofs.Code.Grouping

namespace PyVerify.Code

-- The text of a term can stand right behind a sign.
def Term.Begins (t : Term) : Prop :=
  ∃ c ∈ t.text.toList.head?, c ∉ joining

-- Names, literals and signs of a term that C reads as they are written.
inductive Term.Written : Term → Prop
  | ident (h : isIdentifier name) : Written (.ident name)
  | int : Written (.int n)
  | float (h : ¬x.isNegative) : Written (.float x)
  | str (h : isEscaped body.toList) : Written (.str body)
  | infix2 (hl : Written l) (hr : Written r) : Written (.infix2 l op r)
  | joined (h : ∀ t ∈ ts, Written t) : Written (.joined op ts)
  | sign (h : Written t) (hb : t.Begins) : Written (.sign op t)
  | paren (h : Written t) : Written (.paren t)
  | conditional (hc : Written c) (hb : Written b) (ho : Written o) : Written (.conditional c b o)
  | call (hf : isIdentifier func) (h : ∀ t ∈ args, Written t) : Written (.call func args)
  | cast (ht : namedTypes.lookup type.text = some type) (h : Written t) : Written (.cast type t)
  | index (hb : Written base) (hi : Written i) : Written (.index base i)
  | member (hb : Written base) (hn : isIdentifier name) : Written (.member base name)

variable {t : Term} {ts : List Term} {c : Char} {cs rest : List Char}

theorem Term.Begins.opens (h : t.Begins) : Opens (t.text.toList ++ rest) := by
  obtain ⟨c, hc, hn⟩ := h
  obtain ⟨cs, ht⟩ := List.head?_eq_some_iff.mp hc
  rw [ht]
  rintro _ ⟨⟩
  exact hn

theorem Term.Begins.of_cons (ht : t.text.toList = c :: cs) (hc : isWordChar c) : t.Begins := by
  have hs : ∀ c ∈ joining, ¬isWordChar c := by simp [joining, isWordChar]
  exact ⟨c, by simp [ht], fun h => hs c h hc⟩

theorem Term.Begins.of_isWord (h : isWord t.text) : t.Begins := by
  simp only [isWord, Bool.and_eq_true] at h
  cases ht : t.text.toList
  case nil => simp [ht] at h
  case cons c cs =>
    simp [ht] at h
    exact .of_cons ht h.left.left

theorem Term.Begins.of_isNumber (h : IsNumber t.text.toList) : t.Begins := by
  cases ht : t.text.toList
  all_goals rw [ht] at h
  all_goals cases h
  case cons.intro c cs hd _ => exact .of_cons ht <| by simp [isWordChar, Char.isAlphanum, hd]

theorem Term.Begins.paren : (Term.paren t).Begins :=
  ⟨'(', by simp [text], by decide⟩

theorem Term.Begins.cast {type : CType} : (Term.cast type t).Begins :=
  ⟨'(', by simp [text], by decide⟩

theorem Term.Begins.str {body : String} : (Term.str body).Begins :=
  ⟨'"', by simp [text], by decide⟩

theorem Term.Begins.float {x : Binary64} (h : ¬x.isNegative) : (Term.float x).Begins := by
  have hs := render_spec h
  split at hs
  case isTrue  => exact .of_isWord <| isWord_of_isIdentifier hs
  case isFalse => exact .of_isNumber hs

theorem Term.Begins.append {u : Term} (h : t.Begins) (hu : t.text.toList <+: u.text.toList) : u.Begins := by
  obtain ⟨c, hc, hn⟩ := h
  obtain ⟨cs, hu⟩ := hu
  refine ⟨c, ?_, hn⟩
  rw [←hu]
  exact List.mem_head?_append_of_mem_head? hc

@[simp] theorem apart_nil : Apart [] := by
  rintro _ ⟨⟩

@[simp] theorem apart_cons_iff : Apart (c :: cs) ↔ isWordChar c = false ∧ c ≠ '.' := by
  simp [Apart]

-- The tokens of a term are those of its text, whatever follows the text.
def Term.Lexes (t : Term) : Prop :=
  ∀ {rest}, Apart rest → lex (t.text.toList ++ rest) = t.tokens ++ lex rest

theorem lex_intercalate {sep : List Char} {m : Token} (hs : ∀ {cs}, lex (sep ++ cs) = m :: lex cs)
    (ha : ∀ {cs}, Apart (sep ++ cs)) (h : ∀ t ∈ ts, t.Lexes) (hr : Apart rest) :
    lex (sep.intercalate ((texts ts).map String.toList) ++ rest) =
      [m].intercalate (tokensOf ts) ++ lex rest := by
  induction ts
  case nil => simp [texts, tokensOf]
  case cons t ts hi =>
    rw [List.forall_mem_cons] at h
    cases ts
    case nil => simpa [texts, tokensOf] using h.left hr
    case cons u ts =>
      have hu := hi h.right
      simp only [texts, tokensOf, List.map_cons, List.intercalate_cons_cons, List.append_assoc] at hu ⊢
      rw [h.left ha, hs, hu]
      simp

theorem Term.Written.lexes (h : t.Written) : t.Lexes := by
  unfold Term.Lexes
  induction h
  case ident h => exact lex_word h
  case int     => exact lex_nat
  case float h => exact lex_float h
  case str h   => exact fun _ => lex_str h
  case infix2 hl hr =>
    intro rest h
    simp [text, tokens, hl, hr, h, lex_infix2, isWordChar]
  case joined op _ h =>
    intro rest hr
    simp only [text, tokens, String.toList_intercalate]
    exact lex_intercalate (by simp [lex_infix2]) (by simp [isWordChar]) h hr
  case sign hb hi =>
    intro rest hr
    simp [text, tokens, lex_sign hb.opens, hi hr]
  case paren hi =>
    intro rest hr
    simp [text, tokens, hi, isWordChar]
  case conditional hc hb ho =>
    intro rest h
    simp [text, tokens, hc, hb, ho, h, isWordChar]
  case call func args hf _ h =>
    intro rest hr
    have ha : lex ([',', ' '].intercalate ((texts args).map String.toList) ++ ')' :: rest) =
        [.mark .comma].intercalate (tokensOf args) ++ lex (')' :: rest) :=
      lex_intercalate (by simp) (by simp [isWordChar]) h (by simp [isWordChar])
    simp [text, tokens, lex_word hf, isWordChar, ha]
  case cast ht _ h =>
    intro rest hr
    simp [text, tokens, lex_type ht, h hr, isWordChar]
  case index hb hi =>
    intro rest h
    simp [text, tokens, hb, hi, isWordChar]
  case member hn hb =>
    intro rest h
    simp [text, tokens, hb, lex_word hn h, isWordChar]

example :
    let t : Term := .infix2 (.index (.member (.sign .not <| .paren <| .ident "x") "next") (.int 5)) .shiftLeft
      (.ident "py_int")
    t.text = "!(x)->next[5] << py_int" ∧ lex t.text.toList = t.tokens := by decide +kernel

end PyVerify.Code
