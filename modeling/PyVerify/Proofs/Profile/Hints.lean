import PyVerify.Parser.Statement
import PyVerify.Profile.Report
import PyVerify.Proofs.Profile.Exact
import PyVerify.Proofs.Token.Lexical

namespace PyVerify

-- Where type annotations can stand. No source text has one at a parameter of a lambda expression, but trees can.
inductive HintPlace where
  | result
  | param (kind : ParamKind)
  | assignment
  | alias
  | lambdaParam
deriving DecidableEq

-- A node has an annotation of its own at a place.
inductive Node.Hints : Node → HintPlace → Prop
  | result : Hints (.stmt (.functionDef s name isAsync decorators params (some e) block)) .result
  | param (h : p ∈ params) (ha : p.annotation = some e) :
      Hints (.stmt (.functionDef s name isAsync decorators params returns block)) (.param p.kind)
  | assignment : Hints (.stmt (.annAssign s target annotation value)) .assignment
  | alias : Hints (.stmt (.typeAlias s name typeParams e)) .alias
  | lambdaParam (h : p ∈ params) (ha : p.annotation = some e) : Hints (.expr (.lambda s params body)) .lambdaParam

-- A program has an annotation at a place, at any depth.
def Module.Hints (m : Module) (place : HintPlace) : Prop :=
  ∃ n, m.Occurs n ∧ n.Hints place

namespace HintPlace

-- The places that the analysis takes note of, and those that it passes by.

def noted : List HintPlace := [.result, .param .positional, .alias]

def overlooked : List HintPlace := [.assignment, .param .varArgs, .param .keywordOnly, .param .varKeywords, .lambdaParam]

theorem mem_overlooked_iff {place : HintPlace} : place ∈ overlooked ↔ place ∉ noted := by
  cases place
  case param kind => cases kind <;> decide
  all_goals decide

end HintPlace

variable {m : Module} {n : Node} {t : Stmt} {place : HintPlace}

namespace Node

theorem Hints.exists_stmt (h : n.Hints place) (hp : place ∈ HintPlace.noted) : ∃ t, n = .stmt t := by
  cases h
  case lambdaParam => exact absurd hp (by decide)
  all_goals exact ⟨_, rfl⟩

theorem hints_result_iff {s name isAsync decorators params returns block} :
    Hints (.stmt (.functionDef s name isAsync decorators params returns block)) .result ↔ returns.isSome := by
  rw [Option.isSome_iff_exists]
  constructor
  case mp   => rintro ⟨⟩; exact ⟨_, rfl⟩
  case mpr  => rintro ⟨e, rfl⟩; exact .result

theorem hints_positional_iff {s name isAsync decorators params returns block} :
    Hints (.stmt (.functionDef s name isAsync decorators params returns block)) (.param .positional) ↔
      (Param.positionals params).any fun p => p.annotation.isSome := by
  simp only [List.any_eq_true, Param.positionals, List.mem_filter, Option.isSome_iff_exists, decide_eq_true_eq]
  constructor
  case mp =>
    intro h
    generalize hk : HintPlace.param .positional = place at h
    cases h
    case param p e ha hp => exact ⟨p, ⟨hp, (HintPlace.param.inj hk).symm⟩, e, ha⟩
    all_goals cases hk
  case mpr =>
    rintro ⟨p, ⟨hp, hk⟩, e, ha⟩
    exact hk ▸ .param hp ha

theorem hints_assignment_iff : Hints (.stmt t) .assignment ↔ t.describe = "annotated assignment" := by
  constructor
  case mp => rintro ⟨⟩; rfl
  case mpr =>
    intro h
    cases t
    case annAssign => exact .assignment
    all_goals simp [Stmt.describe] at h

end Node

theorem Stmt.typeHint_mem_ownFeatures {k : Nat} :
    .typeHint ∈ t.ownFeatures k ↔ ∃ place ∈ HintPlace.noted, Node.Hints (.stmt t) place := by
  simp only [HintPlace.noted, List.mem_cons, List.not_mem_nil, or_false, exists_eq_or_imp, exists_eq_left]
  cases t
  case functionDef s name isAsync decorators params returns block =>
    have ha : ¬Node.Hints (.stmt (.functionDef s name isAsync decorators params returns block)) .alias := nofun
    rw [Node.hints_result_iff, Node.hints_positional_iff, or_iff_left ha, ← Bool.or_eq_true, ownFeatures]
    split <;> simp [*]
  case typeAlias s name typeParams e => simp [ownFeatures, Node.Hints.alias]
  case importFrom s module names level =>
    have hn (place : HintPlace) : ¬Node.Hints (.stmt (.importFrom s module names level)) place := nofun
    cases module <;> simp [ownFeatures, hn]
  all_goals
    simp [ownFeatures]
    refine ⟨?_, ?_, ?_⟩ <;> nofun

theorem Module.typeHint_mem_features_iff : .typeHint ∈ m.features ↔ ∃ place ∈ HintPlace.noted, m.Hints place := by
  have hx (x : Expr) : .typeHint ∉ x.ownFeatures := fun h => by
    obtain ⟨op, h⟩ | h | h := Expr.ownFeatures_cases h <;> cases h
  rw [mem_features_iff (by simp)]
  simp only [hx, and_false, exists_false, false_or, Stmt.typeHint_mem_ownFeatures]
  constructor
  case mp   => exact fun ⟨t, ho, place, hp, h⟩ => ⟨place, hp, _, ho, h⟩
  case mpr  =>
    rintro ⟨place, hp, n, ho, h⟩
    obtain ⟨t, rfl⟩ := h.exists_stmt hp
    exact ⟨t, ho, place, hp, h⟩

theorem Profile.typeCheck_mem_tools_iff {p : Profile} : (∃ r ∈ p.tools, r.tool = .typeCheck) ↔ p.hasTypeHints := by
  simp only [tools, List.mem_append, or_and_right, exists_or]
  split <;> split <;> split <;> simp [*]

-- What a profile says on type annotations: it takes note of results, of plain positional parameters and of aliases.
structure Profile.HintsNoted (m : Module) (p : Profile) : Prop where
  flag        : p.hasTypeHints ↔ ∃ place ∈ HintPlace.noted, m.Hints place
  tool        : (∃ r ∈ p.tools, r.tool = .typeCheck) ↔ p.hasTypeHints
  overlooked  : p.hasTypeHints = false → ∀ place, m.Hints place → place ∈ HintPlace.overlooked

theorem Profile.ofModule_hintsNoted (m : Module) : (ofModule m).HintsNoted m := by
  have hf : (ofModule m).hasTypeHints ↔ ∃ place ∈ HintPlace.noted, m.Hints place :=
    List.contains_iff_mem.trans Module.typeHint_mem_features_iff
  constructor
  case flag       => exact hf
  case tool       => exact typeCheck_mem_tools_iff
  case overlooked =>
    intro h place hp
    rw [HintPlace.mem_overlooked_iff]
    intro hn
    have ht := hf.mpr ⟨place, hn, hp⟩
    rw [h] at ht
    cases ht

-- A variable with a type.
def typed : List Char :=
  "x: int = 1\n".toList

theorem typed_overlooked : ∃ m, Module.parse typed = .ok m ∧ (∃ place, m.Hints place) ∧ ¬(Profile.ofModule m).hasTypeHints := by
  have hp : (Module.parse typed).toOption.bind (fun m => some <| (m.body.any fun s => s.describe = "annotated assignment") &&
      !(Profile.ofModule m).hasTypeHints) = some true := by decide +kernel
  obtain ⟨m, hm, hp⟩ := exists_ok_of_toOption hp
  simp only [Option.some.injEq, Bool.and_eq_true, List.any_eq_true, decide_eq_true_eq, Bool.not_eq_true'] at hp
  obtain ⟨⟨s, hs, hd⟩, hn⟩ := hp
  exact ⟨m, hm, ⟨.assignment, _, ⟨s, hs, .refl⟩, Node.hints_assignment_iff.mpr hd⟩, by simp [hn]⟩

end PyVerify
