import PyVerify.Proofs.Parser.Tracks.Module
import PyVerify.Proofs.Token.Lexical

namespace PyVerify

open Token (Kind IsName Lexeme)

-- The names that a name of several parts is made of.
def nameParts (text : String) : List String :=
  (text.toList.splitOn '.').map String.ofList

def onParts (f : String → String) (text : String) : String :=
  ".".intercalate ((nameParts text).map f)

namespace Token

def Kind.parts : Kind → List String
  | name text => nameParts text
  | _         => []

def Kind.rename (f : String → String) : Kind → Kind
  | name text => name (f text)
  | k         => k

def rename (f : String → String) (t : Token) : Token :=
  { t with kind := t.kind.rename f }

end Token

section

variable {f : String → String} {text x y : String}

theorem nameParts_ne_nil : nameParts text ≠ [] := by
  simp [nameParts, List.splitOn_ne_nil]

theorem nameParts_append : nameParts (x ++ "." ++ y) = nameParts x ++ nameParts y := by
  simp [nameParts, List.splitOn, List.splitOnP_append_cons]

theorem intercalate_nameParts : ".".intercalate (nameParts text) = text := by
  apply String.toList_injective
  rw [String.toList_intercalate, nameParts, List.map_map]
  have hi : String.toList ∘ String.ofList = id := funext fun _ => String.toList_ofList
  rw [hi, List.map_id]
  exact List.intercalate_splitOn '.'

theorem nameParts_of_not_mem (h : '.' ∉ text.toList) : nameParts text = [text] := by
  have hs : text.toList.splitOn '.' = [text.toList] :=
    List.splitOnP_eq_singleton fun c hc => beq_eq_false_iff_ne.mpr fun he => h (he ▸ hc)
  rw [nameParts, hs, List.map_singleton, String.ofList_toList]

theorem onParts_append : onParts f (x ++ "." ++ y) = onParts f x ++ "." ++ onParts f y := by
  simp only [onParts, nameParts_append, List.map_append]
  exact String.intercalate_append_of_ne_nil (by simpa using nameParts_ne_nil) (by simpa using nameParts_ne_nil)

theorem onParts_eq_self (h : ∀ part ∈ nameParts text, f part = part) : onParts f text = text := by
  rw [onParts, List.map_congr_left h, List.map_id', intercalate_nameParts]

theorem onParts_of_not_mem (h : '.' ∉ text.toList) : onParts f text = f text := by
  simp [onParts, nameParts_of_not_mem h]

end

-- The words that open a statement in some places, and are names elsewhere.
def softWords : List String :=
  ["match", "case", "type"]

-- Three other names in their place.
structure StandIns where
  forMatch  : String
  forCase   : String
  forType   : String
  isName    : ∀ x ∈ [forMatch, forCase, forType], IsName x
  distinct  : (softWords ++ [forMatch, forCase, forType]).Nodup

namespace StandIns

variable (s : StandIns)

def names : List String :=
  [s.forMatch, s.forCase, s.forType]

def putIn (x : String) : String :=
  if x = "match" then s.forMatch else if x = "case" then s.forCase else if x = "type" then s.forType else x

def takeOut (x : String) : String :=
  if x = s.forMatch then "match" else if x = s.forCase then "case" else if x = s.forType then "type" else x

-- None of the names is used, nor is it a part of one.
def Fresh (ts : List Token) : Prop :=
  ∀ t ∈ ts, ∀ part ∈ t.kind.parts, part ∉ s.names

instance {ts : List Token} : Decidable (s.Fresh ts) :=
  inferInstanceAs <| Decidable (∀ t ∈ ts, ∀ part ∈ t.kind.parts, part ∉ s.names)

variable {s} {x : String} {ts : List Token}

theorem putIn_mem_names (h : x ∈ softWords) : s.putIn x ∈ s.names := by
  simp only [softWords, List.mem_cons, List.not_mem_nil, or_false] at h
  rcases h with rfl | rfl | rfl <;> simp [putIn, names]

theorem putIn_of_not_mem (h : x ∉ softWords) : s.putIn x = x := by
  simp only [softWords, List.mem_cons, List.not_mem_nil, or_false, not_or] at h
  rw [putIn, if_neg h.left, if_neg h.right.left, if_neg h.right.right]

theorem takeOut_of_not_mem (h : x ∉ s.names) : s.takeOut x = x := by
  simp only [names, List.mem_cons, List.not_mem_nil, or_false, not_or] at h
  rw [takeOut, if_neg h.left, if_neg h.right.left, if_neg h.right.right]

theorem takeOut_putIn (h : x ∈ softWords) : s.takeOut (s.putIn x) = x := by
  have hd := s.distinct
  simp only [softWords, List.mem_cons, List.not_mem_nil, or_false] at h
  rcases h with rfl | rfl | rfl <;> simp_all [putIn, takeOut, softWords, eq_comm]

theorem not_mem_softWords (h : x ∈ s.names) : x ∉ softWords :=
  fun hx => (List.nodup_append.mp s.distinct).right.right x hx x h rfl

theorem dot_not_mem (h : x ∈ s.names) : '.' ∉ x.toList :=
  fun hd => nomatch (s.isName x h).word _ hd

theorem star_not_mem : "*" ∉ s.names :=
  fun h => nomatch (s.isName _ h).word '*' (by decide)

variable (s) in
-- The words in place of the names again, also in names of several parts.
def back : Recasting where
  place z   := z
  name      := onParts s.takeOut
  join      := Recasting.keep.join
  dot _ _   := onParts_append
  star      := by rw [onParts_of_not_mem (by decide), takeOut_of_not_mem star_not_mem]

theorem name_back_putIn (h : ∀ part ∈ nameParts x, part ∉ s.names) : s.back.name (s.putIn x) = x := by
  change onParts s.takeOut (s.putIn x) = x
  by_cases hx : x ∈ softWords
  case pos =>
    rw [onParts_of_not_mem <| dot_not_mem <| putIn_mem_names hx, takeOut_putIn hx]
  case neg =>
    rw [putIn_of_not_mem hx]
    exact onParts_eq_self fun part hp => takeOut_of_not_mem <| h part hp

theorem putIn_not_mem : s.putIn x ∉ softWords := by
  by_cases hx : x ∈ softWords
  case pos => exact not_mem_softWords <| putIn_mem_names hx
  case neg => rwa [putIn_of_not_mem hx]

theorem kin_rename (h : s.Fresh ts) : List.Forall₂ (Kin s.back .keep) (ts.map (Token.rename s.putIn)) ts := by
  refine List.forall₂_map_left_iff.mpr <| List.forall₂_same.mpr fun t ht => ⟨rfl, ?_, fun word hw hk => ?_⟩
  case refine_1 =>
    obtain ⟨kind, z⟩ := t
    cases kind
    case name x => exact congrArg Kind.name <| name_back_putIn <| h _ ht
    all_goals rfl
  case refine_2 =>
    obtain ⟨kind, z⟩ := t
    cases kind
    case name x =>
      have hs : word ∈ softWords := by
        rcases List.mem_cons.mp hw with rfl | hw
        · exact .head _
        · exact List.mem_cons_of_mem _ <| List.mem_cons_of_mem _ hw
      cases hk
      exact absurd hs putIn_not_mem
    all_goals cases hk

end StandIns

-- Words that open a statement in some places stay names elsewhere: if a program can be read with other names for them,
-- it is read in the same way with these. To look ahead for a match statement never fails and leaves the cursor where it was.
theorem parseModule_softWords : (∀ b c, ∃ found, Parser.startsMatch b c = .ok (found, c)) ∧
    ∀ (s : StandIns) (ts : List Token), s.Fresh ts → ∀ m, Token.parseModule (ts.map (Token.rename s.putIn)) = .ok m →
      Token.parseModule ts = .ok (m.recast s.back) := by
  refine ⟨fun b c => ?_, fun s ts h m hm => ?_⟩
  case refine_1 =>
    obtain ⟨x, hx, -⟩ := Parser.startsMatch_eq b c
    exact ⟨x, hx⟩
  case refine_2 =>
    obtain ⟨n, hn, hr⟩ := Token.parseModule_recast (by rfl) (StandIns.kin_rename h) hm
    rw [hn, hr, Module.recast_keep, id_eq]

-- A call of `match` and an assignment to `type` by way of `case`.
def softLines : List Token :=
  [.name "match", .mark .openParen, .name "case", .mark .closeParen, .newline, .name "type", .mark .assign, .name "case", .newline,
    .eof].map (⟨·, .nowhere⟩)

theorem softLines_read : Token.parseModule softLines = .ok ⟨[.expr .nowhere <| .call .nowhere (.name .nowhere "match") [.name .nowhere "case"] [],
    .assign .nowhere [.name .nowhere "type"] (.name .nowhere "case")]⟩ :=
  parseModule_softWords.right ⟨"a", "b", "c", by decide, by decide⟩ softLines (by decide)
    ⟨[.expr .nowhere <| .call .nowhere (.name .nowhere "a") [.name .nowhere "b"] [],
      .assign .nowhere [.name .nowhere "c"] (.name .nowhere "b")]⟩ (by rfl)

end PyVerify
