import PyVerify.Proofs.Code.Emission

namespace PyVerify.Code

-- What a statement of a module adds to the definitions of the program.
def definition? (v : Verifier) : PyVerify.Stmt → Option Definition
  | .functionDef _ name false _ params returns body =>
    some <| .function (emitFunction v name.text params returns body).fst
  | s@(.functionDef ..) | s@(.classDef ..) => some <| .placeholder (.kind s.describe)
  | _ => none

-- What a statement of a module adds to the code of `main`.
inductive EmitsTop (v : Verifier) (s : PyVerify.Stmt) (σ : Scope) : List Stmt → Scope → Prop
  | block (h : EmitsBlock v (mainBlock s) σ code n τ) : EmitsTop v s σ code τ
  | guard (h : EmitsBlock v (mainBlock s) σ code n τ) :
      EmitsTop v s σ (code ++ [.placeholder .guardElse]) τ

inductive EmitsMain (v : Verifier) : List PyVerify.Stmt → Scope → List Stmt → Scope → Prop
  | nil : EmitsMain v [] σ [] σ
  | cons (h : EmitsTop v s σ first ρ) (hs : EmitsMain v ss ρ rest τ) :
      EmitsMain v (s :: ss) σ (first ++ rest) τ

variable {v : Verifier} {s : PyVerify.Stmt} {ss : List PyVerify.Stmt} {σ τ : Scope} {n : Notes}

open Emit

theorem EmitsBlock.single {code : List Stmt} (h : Emits v s σ code n τ) : EmitsBlock v [s] σ code n τ := by
  simpa using EmitsBlock.cons h .nil

theorem definition?_emitTopLevel : (emitTopLevel v s σ).value.definition? = definition? v s := by
  fun_cases emitTopLevel v s
  case case1 => rfl
  case case2 isAsync _ _ _ _ h =>
    cases isAsync
    case false  => exact (h rfl).elim
    case true   => rfl
  case case3 | case4 | case5 => rfl
  case case6 hf hd hc _ => exact (definition?.eq_4 v s hf hd hc).symm

theorem EmitsTop.of_emitTopLevel {part : Part} (h : emitTopLevel v s σ = ⟨part, n, τ⟩) :
    EmitsTop v s σ part.mainCode τ := by
  revert h
  fun_cases emitTopLevel v s <;> intro h
  case case1 =>
    cases h
    exact .block .nil
  case case2 | case3 =>
    obtain ⟨rfl, rfl, rfl⟩ := pure_eq h
    exact .block .nil
  case case4 z test block other hg =>
    obtain ⟨code, hb, rfl⟩ := bind_pure_eq h
    have hm : mainBlock (.if z test block other) = block := if_pos hg
    have hb : EmitsBlock v (mainBlock (.if z test block other)) σ code n τ := by
      rw [hm]
      exact .of_emitBlock block hb
    cases other
    case nil  => exact .block hb
    case cons => exact .guard hb
  case case5 z test block other hg =>
    obtain ⟨code, hs, rfl⟩ := bind_pure_eq h
    have hm : mainBlock (.if z test block other) = [.if z test block other] := if_neg hg
    exact .block (hm ▸ .single (.of_emitStmt _ hs) : EmitsBlock v (mainBlock _) σ code n τ)
  case case6 _ hf hc hi =>
    obtain ⟨code, hs, rfl⟩ := bind_pure_eq h
    exact .block (mainBlock.eq_4 s hf hc hi ▸ .single (.of_emitStmt _ hs) : EmitsBlock v (mainBlock _) σ code n τ)

theorem definitions_emitTopLevels :
    (emitTopLevels v ss σ).value.filterMap Part.definition? = ss.filterMap (definition? v) := by
  induction ss generalizing σ
  case nil => rfl
  case cons s ss hi => simp [emitTopLevels, bind, pure, List.filterMap_cons, definition?_emitTopLevel, hi]

theorem EmitsMain.of_emitTopLevels {parts : List Part} (h : emitTopLevels v ss σ = ⟨parts, n, τ⟩) :
    EmitsMain v ss σ (parts.flatMap Part.mainCode) τ := by
  induction ss generalizing σ parts n
  case nil =>
    obtain ⟨rfl, rfl, rfl⟩ := pure_eq h
    exact .nil
  case cons s ss hi =>
    obtain ⟨_, _, _, _, h₁, h₂, rfl⟩ := bind_eq h
    obtain ⟨_, h₃, rfl⟩ := bind_pure_eq h₂
    exact .cons (.of_emitTopLevel h₁) (hi h₃)

-- The statements that become the code of `main`.
def mainBody (m : Module) : List PyVerify.Stmt :=
  m.body.flatMap mainBlock

def paramNames (params : List (Param PyVerify.Expr)) : List String :=
  (Param.positionals params).map (·.name.text)

-- The names that a function, or `main`, declares at its top.
def locals (v : Verifier) (params : List String) (body : List PyVerify.Stmt) : List Binding :=
  hoisted params (blockBindings v false body)

-- The scope of its first statement.
def entry (v : Verifier) (params : List String) (body : List PyVerify.Stmt) : Scope :=
  (locals v params body).map Binding.name ++ params

@[simp] theorem blockBindings_append {nested : Bool} {rest : List PyVerify.Stmt} :
    blockBindings v nested (ss ++ rest) = blockBindings v nested ss ++ blockBindings v nested rest := by
  induction ss <;> simp_all [blockBindings]

theorem blockBindings_mainBody {m : Module} {nested : Bool} :
    blockBindings v nested (mainBody m) = m.body.flatMap fun s => blockBindings v nested (mainBlock s) := by
  unfold mainBody
  induction m.body <;> simp_all [blockBindings]

theorem emitFunction_body {name : String} {params : List (Param PyVerify.Expr)} {returns : Option PyVerify.Expr}
    {body : List PyVerify.Stmt} :
    ∃ code n τ, EmitsBlock v body (entry v (paramNames params) body) code n τ ∧
      (emitFunction v name params returns body).fst.body =
        declarations (locals v (paramNames params) body) ++ code :=
  ⟨_, _, _, .of_emitBlock body rfl, rfl⟩

namespace Translation

variable {m : Module} {t : Translation}

theorem definitions_eq (h : ofModule? m = some t) :
    t.program.definitions = m.body.filterMap (definition? <| .ofModule m) := by
  simp only [ofModule?] at h
  split at h
  case isTrue   => cases h
  case isFalse  =>
    cases h
    exact definitions_emitTopLevels

-- Each function of the program is one of the source.
theorem function_eq {f : Function} (h : ofModule? m = some t) (hf : .function f ∈ t.program.definitions) :
    ∃ z name ds params returns body, .functionDef z name false ds params returns body ∈ m.body ∧
      f = (emitFunction (.ofModule m) name.text params returns body).fst := by
  rw [definitions_eq h, List.mem_filterMap] at hf
  obtain ⟨s, hs, hd⟩ := hf
  unfold definition? at hd
  split at hd
  all_goals cases hd
  exact ⟨_, _, _, _, _, _, hs, rfl⟩

theorem main_eq (h : ofModule? m = some t) :
    ∃ code τ, EmitsMain (.ofModule m) m.body (entry (.ofModule m) [] (mainBody m)) code τ ∧
      t.program.main = declarations (locals (.ofModule m) [] (mainBody m)) ++ code := by
  simp only [ofModule?, ← blockBindings_mainBody] at h
  split at h
  case isTrue   => cases h
  case isFalse  =>
    cases h
    simp only [entry, List.append_nil]
    exact ⟨_, _, .of_emitTopLevels rfl, rfl⟩

end Translation

end PyVerify.Code
