import PyVerify.Proofs.Checker.CommandLine
import PyVerify.Proofs.Checker.Verdict

namespace PyVerify

-- The first complaint in a text is about this name.
def FirstComplaint (text name : List Char) : Prop :=
  ∃ before after, text = before ++ (complaint.toList ++ name ++ '\'' :: after) ∧ name ≠ [] ∧ '\'' ∉ name ∧
    ∀ earlier rest, text = earlier ++ rest → ComplainsAt rest → before.length ≤ earlier.length

variable {text name : List Char}

theorem FirstComplaint.complainedName?_eq (h : FirstComplaint text name) : complainedName? text = some name := by
  induction text
  case nil =>
    obtain ⟨before, after, ht, _⟩ := h
    simp at ht
  case cons c text hi =>
    obtain ⟨before, after, ht, hne, hn, first⟩ := h
    rw [complainedName?]
    cases before
    case nil =>
      have hp : complaint.toList.isPrefixOf (c :: text) = true := by
        rw [List.isPrefixOf_iff_prefix, ht]
        exact ⟨_, (List.append_assoc ..).symm⟩
      have hq : quotedName? ((c :: text).drop complaint.length) = some name := by
        rw [quotedName?_eq_some_iff, ht]
        exact ⟨hne, hn, after, by simp [←String.length_toList]⟩
      simp only [hp, if_true, hq]
    case cons b before =>
      have hc : ¬ComplainsAt (c :: text) := fun hc => Nat.not_succ_le_zero _ (first [] _ rfl hc)
      have hq : (if complaint.toList.isPrefixOf (c :: text) then quotedName? ((c :: text).drop complaint.length)
          else none) = none := by
        rw [complainsAt_iff, not_and] at hc
        split
        case isTrue hp  => simpa using hc hp
        case isFalse    => rfl
      obtain ⟨rfl, rfl⟩ := List.cons.inj ht
      simp only [hq]
      refine hi ⟨before, after, rfl, hne, hn, fun earlier rest he hr => ?_⟩
      have hl := first (c :: earlier) rest (by rw [he]; rfl) hr
      simpa using hl

-- However many hyphens there are in front of a name, its option has two of them.
theorem optionOfName_append {hyphens x : String} (hyphened : hyphens ∈ ["", "-", "--"])
    (bare : x.toList.head? ≠ some '-') : optionOfName (hyphens ++ x).toList = "--" ++ x := by
  have hd : x.toList.dropWhile (· = '-') = x.toList := by
    cases hx : x.toList
    case nil => rfl
    case cons c cs => exact List.dropWhile_cons_of_neg (by simpa [hx] using bare)
  obtain rfl | rfl | rfl : hyphens = "" ∨ hyphens = "-" ∨ hyphens = "--" := by simpa using hyphened
  case inl =>
    rw [String.empty_append, optionOfName, hd, String.ofList_toList]
    intro rest hr
    exact absurd (by rw [hr]; rfl) bare
  case inr.inl =>
    have hl : ("-" ++ x).toList = '-' :: x.toList := String.toList_append
    rw [hl, optionOfName, List.dropWhile_cons_of_pos (by decide), hd, String.ofList_toList]
    intro rest hr
    exact absurd (by rw [(List.cons.inj hr).right]; rfl) bare
  case inr.inr =>
    have hl : ("--" ++ x).toList = '-' :: '-' :: x.toList := String.toList_append
    rw [hl, optionOfName, ←hl, String.ofList_toList]

namespace Ladder

-- Calls of `advance`, with the answers to them.
inductive Called : Ladder → List Transition → Ladder → Prop
  | nil : Called l [] l
  | cons (observed : Classification) (output : String) (last : Invocation)
    (rest : Called (l.advance observed output last).2 answers l') :
    Called l ((l.advance observed output last).1 :: answers) l'

variable {l l' : Ladder} {observed : Classification} {output : String} {last : Invocation}
variable {answers : List Transition} {c : Configuration}

-- The options that are left out change with a repair and never otherwise.
theorem advance_removed (l : Ladder) (observed : Classification) (output : String) (last : Invocation) :
    (∃ o, (l.advance observed output last).1 = .repair o ∧ 0 < l.repairs) ∨
      (∀ o, (l.advance observed output last).1 ≠ .repair o) ∧
        (l.advance observed output last).2.removed = l.removed ∧
        (l.advance observed output last).2.repairs = l.repairs := by
  obtain ⟨t, l', n⟩ | he := l.advance_cases observed output last
  · rw [n.advance_eq]
    cases n
    case repair o _ _ left  => exact .inl ⟨o, rfl, left⟩
    case escalate           => exact .inr ⟨nofun, rfl, rfl⟩
    case degrade            => exact .inr ⟨nofun, rfl, rfl⟩
  · rw [he]
    exact .inr ⟨nofun, rfl, rfl⟩

theorem Called.of_no_repair (h : Called l answers l') (fresh : ∀ t ∈ answers, ∀ o, t ≠ .repair o) :
    l'.removed = l.removed ∧ l'.repairs = l.repairs := by
  induction h
  case nil => exact ⟨rfl, rfl⟩
  case cons l observed output last _ hi =>
    obtain ⟨hf, fresh⟩ := List.forall_mem_cons.mp fresh
    obtain ⟨o, ho, _⟩ | ⟨_, hr, hp⟩ := l.advance_removed observed output last
    · exact absurd ho (hf o)
    · exact ⟨(hi fresh).left.trans hr, (hi fresh).right.trans hp⟩

-- Once there is no repair left, it stays like this.
theorem Called.of_no_repairs (h : Called l answers l') (spent : l.repairs = 0) : l'.removed = l.removed := by
  induction h
  case nil => rfl
  case cons l observed output last _ hi =>
    obtain ⟨o, _, left⟩ | ⟨_, hr, hp⟩ := l.advance_removed observed output last
    · omega
    · exact (hi (hp.trans spent)).trans hr

theorem advance_repair {option : String} (names : rejected? output last = some option) (left : 0 < l.repairs) :
    l.advance .optionError output last =
      (.repair option, { l with repairs := l.repairs - 1, removed := l.removed ++ [option] }) :=
  (Next.repair rfl names left).advance_eq

-- An option with its value, or an argument without one.
inductive IsGroup (removed : String) : List String → Prop
  | valued (hv : v ∈ valuedOptions) (hn : value ≠ removed) : IsGroup removed [v, value]
  | single (hv : arg ∉ valuedOptions) : IsGroup removed [arg]

section Without

variable {option arg value : String} {rest : List String}

theorem without_cons_of_ne (h : arg ≠ option) : without [option] (arg :: rest) = arg :: without [option] rest := by
  cases rest
  case nil   => simp [without, h]
  case cons  => rw [without, if_neg (by simpa using h)]

theorem without_cons (hv : option ∉ valuedOptions) : without [option] (option :: rest) = without [option] rest := by
  cases rest
  case nil   => simp [without]
  case cons  => rw [without, if_pos (by simp), if_neg (by simpa using hv)]

theorem without_valued (hv : option ∈ valuedOptions) :
    without [option] (option :: value :: rest) = without [option] rest := by
  rw [without, if_pos (by simp), if_pos (by simpa using hv)]

-- An option takes its value along.
theorem without_flatten {groups : List (List String)} (h : ∀ g ∈ groups, IsGroup option g) :
    without [option] groups.flatten = (groups.filter fun g => g.head? ≠ some option).flatten := by
  induction groups
  case nil => rfl
  case cons g groups hi =>
    obtain ⟨hg, h⟩ := List.forall_mem_cons.mp h
    replace hi := hi h
    cases hg
    case valued v value hv hn =>
      by_cases he : v = option
      case pos =>
        subst he
        rw [List.filter_cons_of_neg (by simp), ←hi]
        exact without_valued hv
      case neg =>
        rw [List.filter_cons_of_pos (by simpa using he), List.flatten_cons, List.flatten_cons, ←hi]
        exact (without_cons_of_ne he).trans (congrArg _ (without_cons_of_ne hn))
    case single arg hv =>
      by_cases he : arg = option
      case pos =>
        subst he
        rw [List.filter_cons_of_neg (by simp), ←hi]
        exact without_cons hv
      case neg =>
        rw [List.filter_cons_of_pos (by simpa using he), List.flatten_cons, List.flatten_cons, ←hi]
        exact without_cons_of_ne he

end Without

end Ladder

namespace Configuration

-- The options of a configuration, each with the value that belongs to it.
def groups (c : Configuration) : List (List String) :=
  ["--unwind", c.unwind.repr] :: ["--timeout", c.timeout.repr] :: c.flags.optional.map fun p => [option p]

variable {c : Configuration} {file : String}

theorem arguments_groups (c : Configuration) (file : String) : c.arguments file = file :: c.groups.flatten := by
  have hf : (c.flags.optional.map fun p => [option p]).flatten = c.flags.optional.map option := by
    rw [←List.flatMap_def, List.map_eq_flatMap]
  rw [arguments_eq, groups, List.flatten_cons, List.flatten_cons, hf]
  rfl

theorem groups_isGroup (c : Configuration) {x : String} :
    ∀ g ∈ c.groups, Ladder.IsGroup ("--" ++ x) g := by
  have hn : ∀ n : Nat, n.repr ≠ "--" ++ x := fun n => repr_ne (c := '-') (by simp) (by decide)
  refine List.forall_mem_cons.mpr ⟨.valued (by decide) (hn _), ?_⟩
  refine List.forall_mem_cons.mpr ⟨.valued (by decide) (hn _), fun g hg => ?_⟩
  obtain ⟨p, hp, rfl⟩ := List.mem_map.mp hg
  exact .single (option_not_mem_valuedOptions p (c.flags.optional_subset hp))

end Configuration

-- The arguments are those of the configuration without an option and its value. The file stays in front of them.
structure Strips (option file : String) (c : Configuration) (arguments : List String) : Prop where
  given     : c.arguments file = file :: c.groups.flatten
  stripped  : arguments = file :: (c.groups.filter fun g => g.head? ≠ some option).flatten

namespace Ladder

variable {l : Ladder} {program file x : String}

theorem invocation_strips (removed : l.removed = ["--" ++ x]) (path : ¬"--".toList <+: file.toList) :
    Strips ("--" ++ x) file l.configuration (l.invocation program file).arguments where
  given := l.configuration.arguments_groups file
  stripped := by
    have hf : ∀ y, file ≠ "--" ++ y := by
      rintro y rfl
      exact path ⟨y.toList, String.toList_append.symm⟩
    have hv : file ∉ valuedOptions := by
      simpa [valuedOptions] using ⟨hf "unwind", hf "timeout"⟩
    have hg : ∀ g ∈ [file] :: l.configuration.groups, IsGroup ("--" ++ x) g :=
      List.forall_mem_cons.mpr ⟨.single hv, l.configuration.groups_isGroup⟩
    have hs := without_flatten hg
    rw [List.filter_cons_of_pos (by simpa using hf x)] at hs
    rw [invocation, removed, Configuration.arguments_groups]
    exact hs

-- An option that is given and complained about is left out, once, and from then on whatever follows.
theorem advance_strips {c : Configuration} {before : List Transition} (called : Called (.start c) before l)
    (fresh : ∀ t ∈ before, ∀ o, t ≠ .repair o) {output hyphens : String} {last : Invocation}
    (hyphened : hyphens ∈ ["", "-", "--"]) (bare : x.toList.head? ≠ some '-')
    (complains : FirstComplaint output.toList (hyphens ++ x).toList) (given : last.hasOption ("--" ++ x)) :
    (l.advance .optionError output last).1 = .repair ("--" ++ x) ∧
    ∀ later l', Called (l.advance .optionError output last).2 later l' →
      ∀ program file, ¬"--".toList <+: file.toList →
        Strips ("--" ++ x) file l'.configuration (l'.invocation program file).arguments := by
  obtain ⟨hr, hp⟩ : l.removed = [] ∧ l.repairs = 1 := called.of_no_repair fresh
  have names : rejected? output last = some ("--" ++ x) := by
    rw [rejected?, unrecognisedOption?, complains.complainedName?_eq, Option.map_some,
      optionOfName_append hyphened bare, Option.filter_some, if_pos given]
  rw [advance_repair names (by omega)]
  refine ⟨rfl, fun later l' h program file path => invocation_strips ?_ path⟩
  rw [h.of_no_repairs (by simp [hp]), hr]
  rfl

end Ladder

-- A checker that knows neither of two options, so that the first one is left out.
def outdated : String :=
  "unrecognised option '-timeout'\nunrecognised option 'overflow-check'\n"

def demanding : Ladder :=
  .start (.ofFlags { Flags.none with overflow := true, memoryLeak := true })

def demand : Invocation :=
  demanding.invocation "esbmc" "main.c"

theorem outdated_strips :
    (demanding.advance .optionError outdated demand).1 = .repair "--timeout" ∧
    ∃ l', Ladder.Called (demanding.advance .optionError outdated demand).2 [.escalate, .degrade] l' ∧
      (l'.invocation "esbmc" "main.c").arguments = ["main.c", "--unwind", "5"] := by
  have complains : FirstComplaint outdated.toList ("-" ++ "timeout").toList :=
    ⟨[], "\nunrecognised option 'overflow-check'\n".toList, by decide, by decide, by decide,
      fun _ _ _ _ => Nat.zero_le _⟩
  have given : demand.hasOption ("--" ++ "timeout") := by decide +kernel
  obtain ⟨repaired, strips⟩ := Ladder.advance_strips .nil nofun (by decide) (by decide) complains given
  refine ⟨repaired, _, .cons .unwindingIncomplete "" demand (.cons .timedOut "" demand .nil), ?_⟩
  have h := strips _ _ (.cons .unwindingIncomplete "" demand (.cons .timedOut "" demand .nil)) "esbmc" "main.c"
    (by decide)
  exact h.stripped.trans (by decide +kernel)

end PyVerify
