import PyVerify.Proofs.Code.Primitive

namespace PyVerify.Code

open PyVerify.Token (IsName Keyword)

-- Words of C99 that are names of a source, and stay as they are.
def overlooked : List String :=
  ["_Bool", "_Complex", "_Imaginary", "inline", "restrict"]

-- Words of C99 that are no names of a source.
def shared : List String :=
  ["break", "continue", "else", "for", "if", "return", "while"]

-- The words that C99 keeps to itself.
def keywords : List String :=
  reserved ++ (overlooked ++ shared)

-- What other names are written as.
def renamed : List String :=
  "user_main" :: reserved.map ("py_" ++ ·)

-- A name is written as another one, which a source can have as well.
inductive Renames : String → String → Prop
  | main                        : Renames "main" "user_main"
  | reserved (h : k ∈ reserved) : Renames k ("py_" ++ k)

-- Two names of a source are one name in the code.
def Meet (a b : String) : Prop :=
  a = b ∨ Renames a b ∨ Renames b a

def Program.functionNames (p : Program) : List String :=
  p.definitions.filterMap fun
    | .function f     => some f.name
    | .placeholder _  => none

section

variable {a b x : String}

theorem main_not_mem_reserved : "main" ∉ reserved := by
  decide

-- No word that needs a new name begins as the new names do.
theorem head_ne_of_word : ∀ k ∈ "main" :: (reserved ++ shared), k.toList.head? ≠ some 'p' := by
  simp [reserved, shared]

-- A new name needs none itself.
theorem renamed_free : ∀ x ∈ renamed, x ≠ "main" ∧ x ∉ reserved ∧ x ∉ shared := by
  have hw : ∀ x ∈ renamed, x ∉ "main" :: (reserved ++ shared) := by
    refine List.forall_mem_cons.mpr ⟨by simp [reserved, shared], List.forall_mem_map.mpr fun k _ h => ?_⟩
    exact head_ne_of_word _ h (by simp)
  intro x hx
  simpa using hw x hx

theorem identifier_eq_self (hm : a ≠ "main") (hr : a ∉ reserved) : identifier a = a := by
  simp [identifier, hm, hr]

theorem identifier_of_reserved (h : a ∈ reserved) : identifier a = "py_" ++ a := by
  have hm : a ≠ "main" := fun hm => main_not_mem_reserved (hm ▸ h)
  simp [identifier, hm, h]

namespace Renames

theorem identifier_eq (h : Renames a x) : identifier a = x := by
  cases h
  case main         => rfl
  case reserved hr  => exact identifier_of_reserved hr

theorem mem_renamed (h : Renames a x) : x ∈ renamed := by
  cases h
  case main         => exact List.mem_cons_self
  case reserved hr  => exact List.mem_cons_of_mem _ <| List.mem_map_of_mem hr

theorem identifier_image (h : Renames a x) : identifier x = x := by
  obtain ⟨hm, hr, -⟩ := renamed_free x h.mem_renamed
  exact identifier_eq_self hm hr

theorem cases_iff : Renames a x ↔ a = "main" ∧ x = "user_main" ∨ a ∈ Code.reserved ∧ x = "py_" ++ a := by
  constructor
  case mp => exact fun | main => .inl ⟨rfl, rfl⟩ | reserved h => .inr ⟨h, rfl⟩
  case mpr =>
    rintro (⟨rfl, rfl⟩ | ⟨h, rfl⟩)
    · exact main
    · exact reserved h

theorem injective (h : Renames a x) (g : Renames b x) : a = b := by
  have hu (k : String) : "user_main" ≠ "py_" ++ k := fun hk => by simpa using congrArg String.toList hk
  obtain ⟨rfl, rfl⟩ | ⟨ha, rfl⟩ := cases_iff.mp h
  all_goals obtain ⟨rfl, he⟩ | ⟨hb, he⟩ := cases_iff.mp g
  · rfl
  · exact (hu b he).elim
  · exact (hu a he.symm).elim
  · exact String.toList_inj.mp <| by simpa using congrArg String.toList he

end Renames

theorem identifier_cases (a : String) :
    Renames a (identifier a) ∨ a ≠ "main" ∧ a ∉ reserved ∧ identifier a = a := by
  by_cases hm : a = "main"
  case pos => exact .inl <| hm ▸ .main
  case neg =>
    by_cases hr : a ∈ reserved
    case pos => exact .inl <| identifier_of_reserved hr ▸ .reserved hr
    case neg => exact .inr ⟨hm, hr, identifier_eq_self hm hr⟩

theorem identifier_eq_iff : identifier a = identifier b ↔ Meet a b := by
  constructor
  case mp =>
    intro h
    obtain ha | ⟨-, -, ha⟩ := identifier_cases a
    all_goals obtain hb | ⟨-, -, hb⟩ := identifier_cases b
    · exact .inl <| ha.injective (h ▸ hb)
    · exact .inr <| .inl <| by rwa [h, hb] at ha
    · exact .inr <| .inr <| by rwa [← h, ha] at hb
    · exact .inl <| by rwa [ha, hb] at h
  case mpr =>
    rintro (rfl | h | h)
    · rfl
    · rw [h.identifier_eq, h.identifier_image]
    · rw [h.identifier_eq, h.identifier_image]

theorem identifier_ne_main : identifier a ≠ "main" := by
  obtain h | ⟨hm, -, h⟩ := identifier_cases a
  · exact (renamed_free _ h.mem_renamed).left
  · rwa [h]

theorem identifier_free (h : IsName a) : identifier a ≠ "main" ∧ identifier a ∉ reserved ∧ identifier a ∉ shared := by
  have hs : ∀ k ∈ shared, Keyword.ofText? k ≠ none := by decide
  obtain hi | ⟨hm, hr, hi⟩ := identifier_cases a
  · exact renamed_free _ hi.mem_renamed
  · rw [hi]
    exact ⟨hm, hr, fun hk => hs a hk h.free⟩

theorem Word.IsLexical.name_free (h : (Word.name x).IsLexical) : x ≠ "main" ∧ x ∉ reserved ∧ x ∉ shared := by
  obtain rfl | ⟨a, ha, rfl⟩ := h
  case inl => decide
  case inr => exact identifier_free ha

theorem Word.IsLexical.member_free (h : (Word.member x).IsLexical) : x ∉ shared := by
  have hs : ∀ k ∈ shared, Keyword.ofText? k ≠ none := by decide
  exact fun hk => hs x hk h.free

end

theorem Program.Lexical.words {p : Program} (h : p.Lexical) : ∀ w ∈ p.words, w.IsLexical := by
  have hb : ∀ {code : List Stmt}, Code.Lexical code → ∀ w ∈ (blockSequence code).flatMap Stmt.words, w.IsLexical :=
    fun hc => List.forall_mem_flatMap.mpr fun s hs => (hc s hs).words
  refine List.forall_mem_append.mpr ⟨List.forall_mem_map.mpr h.primitives, ?_⟩
  refine List.forall_mem_append.mpr ⟨List.forall_mem_flatMap.mpr fun d hd => ?_, hb h.main⟩
  cases d
  case placeholder what => exact List.forall_mem_singleton.mpr <| h.placeholders what hd
  case function f =>
    obtain ⟨hn, hp, hc⟩ := h.functions f hd
    exact List.forall_mem_cons.mpr ⟨hn, List.forall_mem_append.mpr ⟨List.forall_mem_map.mpr hp, hb hc⟩⟩

theorem Translation.functionNames_eq {m : Module} {t : Translation} (h : ofModule? m = some t) :
    t.program.functionNames = t.functions.map identifier := by
  have hf : t.functions = functionNames m := by
    simp only [ofModule?] at h
    split at h
    case isTrue   => cases h
    case isFalse  =>
      cases h
      rfl
  rw [Program.functionNames, definitions_eq h, hf, functionNames, List.filterMap_filterMap, List.map_filterMap]
  congr
  funext s
  cases s
  case functionDef isAsync _ _ _ _ => cases isAsync <;> rfl
  all_goals rfl

-- The names of the code are those of the source, apart from a few that are changed.
theorem names_meet {source : List Char} {m : Module} {t : Translation} (hm : Module.parse source = .ok m)
    (ht : Translation.ofModule? m = some t) :
    t.program.functionNames = t.functions.map identifier ∧ "main" ∉ t.program.functionNames ∧
      (t.program.functionNames.Nodup ↔ t.functions.Pairwise fun a b => ¬Meet a b) ∧
      (∀ a b, identifier a = identifier b ↔ Meet a b) ∧
      (∀ x, .name x ∈ t.program.words → x ≠ "main" ∧ (x ∈ keywords → x ∈ overlooked)) ∧
      ∀ x, .member x ∈ t.program.words → x ∈ keywords → x ∈ reserved ∨ x ∈ overlooked := by
  have hn := Translation.functionNames_eq ht
  have hw := (Translation.lexical ht <| Module.parse_lexical hm).words
  refine ⟨hn, ?_, ?_, fun _ _ => identifier_eq_iff, fun x hx => ?_, fun x hx hk => ?_⟩
  case refine_1 =>
    rw [hn]
    rintro h
    obtain ⟨a, -, ha⟩ := List.mem_map.mp h
    exact identifier_ne_main ha
  case refine_2 =>
    rw [hn, List.Nodup, List.pairwise_map]
    simp only [ne_eq, identifier_eq_iff]
  case refine_3 =>
    obtain ⟨hm, hr, hs⟩ := (hw _ hx).name_free
    refine ⟨hm, fun hk => ?_⟩
    simpa [keywords, hr, hs] using hk
  case refine_4 => simpa [keywords, (hw _ hx).member_free] using hk

-- A word of C, two names that become one, and a function that is defined twice.
def crowded : List Char :=
  ("def int(x):\n    return x.goto\ndef py_int(inline):\n    return inline\ndef main():\n    return int(1)\n" ++
    "def main():\n    return 2\n").toList

theorem crowded_names_meet : ∃ m t, Module.parse crowded = .ok m ∧ Translation.ofModule? m = some t ∧
    t.functions = ["int", "py_int", "main", "main"] ∧ Word.name "inline" ∈ t.program.words ∧
    Word.member "goto" ∈ t.program.words ∧
    t.program.functionNames = t.functions.map identifier ∧ "main" ∉ t.program.functionNames ∧
      (t.program.functionNames.Nodup ↔ t.functions.Pairwise fun a b => ¬Meet a b) ∧
      (∀ a b, identifier a = identifier b ↔ Meet a b) ∧
      (∀ x, .name x ∈ t.program.words → x ≠ "main" ∧ (x ∈ keywords → x ∈ overlooked)) ∧
      ∀ x, .member x ∈ t.program.words → x ∈ keywords → x ∈ reserved ∨ x ∈ overlooked := by
  obtain ⟨_, rfl, hc⟩ : ∃ cs, crowded = cs ∧ (Module.parse cs).toOption.bind (fun m => (Translation.ofModule? m).map fun t =>
      (t.functions, decide (Word.name "inline" ∈ t.program.words ∧ Word.member "goto" ∈ t.program.words))) =
        some (["int", "py_int", "main", "main"], true) := by
    refine ⟨_, toList_append_of String.toList_ofList String.toList_ofList, ?_⟩
    decide +kernel
  obtain ⟨m, hm, hc⟩ := exists_ok_of_toOption hc
  obtain ⟨t, ht, hc⟩ := Option.map_eq_some_iff.mp hc
  obtain ⟨hf, hw⟩ := Prod.mk.inj hc
  obtain ⟨hi, hg⟩ := of_decide_eq_true hw
  exact ⟨m, t, hm, ht, hf, hi, hg, names_meet hm ht⟩

def inlined : List Char :=
  "def f(inline):\n    return inline\n".toList

-- Not all names of the code are free in C.
theorem inlined_keyword : ¬∀ (source : List Char) (m : Module) (t : Translation),
    Module.parse source = .ok m → Translation.ofModule? m = some t →
      t.program.functionNames.Nodup ∧ "main" ∉ t.program.functionNames ∧
        (∀ a b, identifier a = identifier b → a = b) ∧
        ∀ x, .name x ∈ t.program.words ∨ .member x ∈ t.program.words → x ∉ keywords := by
  intro h
  have hc : (Module.parse inlined).toOption.bind (fun m => (Translation.ofModule? m).map
      fun t => decide (Word.name "inline" ∈ t.program.words)) = some true := by decide +kernel
  obtain ⟨m, hm, hc⟩ := exists_ok_of_toOption hc
  obtain ⟨t, ht, hi⟩ := Option.map_eq_some_iff.mp hc
  obtain ⟨-, -, -, hk⟩ := h inlined m t hm ht
  exact hk "inline" (.inl <| of_decide_eq_true hi) (by decide)

end PyVerify.Code
