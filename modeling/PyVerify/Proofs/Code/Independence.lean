import PyVerify.Proofs.Code.Unplaced

namespace PyVerify

def Stmt.isDefinition : Stmt → Bool
  | .functionDef .. | .classDef .. => true
  | _                              => false

-- The statement imports the module of the verifier, or names of it.
def Stmt.importsVerifier : Stmt → Bool
  | .importModules _ names            => names.any (·.name = Code.Verifier.moduleName)
  | .importFrom _ (some module) _ _   => module = Code.Verifier.moduleName
  | _                                 => false

namespace Module

-- The functions and classes of a module.
def definitions (m : Module) : List Stmt :=
  m.body.filter Stmt.isDefinition

-- Its other statements.
def statements (m : Module) : List Stmt :=
  m.body.filter (!·.isDefinition)

def verifierImports (m : Module) : List Stmt :=
  m.body.filter Stmt.importsVerifier

end Module

namespace Code

variable {v w : Verifier} {s : PyVerify.Stmt} {ss : List PyVerify.Stmt} {m m₁ m₂ : Module} {t t₁ t₂ : Translation}

namespace Verifier

theorem add_of_not_importsVerifier (h : s.importsVerifier = false) : v.add s = v := by
  cases s
  case importModules names =>
    have hn : names.filter (·.name = moduleName) = [] := by
      simpa [Stmt.importsVerifier] using h
    simp only [add, hn]
  case importFrom module _ _ =>
    cases module
    case none => rfl
    case some name => exact if_neg (of_decide_eq_false h)
  all_goals rfl

theorem foldl_add_filter {p : PyVerify.Stmt → Bool} (h : ∀ s ∈ ss, s.importsVerifier → p s) :
    (ss.filter p).foldl add v = ss.foldl add v := by
  induction ss generalizing v
  case nil => rfl
  case cons s ss hi =>
    have hi := hi (v := v.add s) fun s hs => h s (.tail _ hs)
    cases hp : p s
    case true => simpa [hp] using hi
    case false =>
      have hs : s.importsVerifier = false := by
        simpa [hp] using h s (.head _)
      rw [add_of_not_importsVerifier hs] at hi
      simpa [hp, add_of_not_importsVerifier hs] using hi

theorem foldl_add_unplaced : (ss.map Stmt.unplaced).foldl add v = ss.foldl add v := by
  simp [List.foldl_map, add_unplaced]

-- Which names stand for primitives is decided by the imports of the verifier's module.
theorem ofModule_verifierImports : ofModule m = m.verifierImports.foldl add none :=
  (foldl_add_filter fun _ _ h => h).symm

theorem ofModule_statements : ofModule m = m.statements.foldl add none := by
  refine (foldl_add_filter fun s _ h => ?_).symm
  cases s <;> simp_all [Stmt.importsVerifier, Stmt.isDefinition]

theorem Same.of_verifierImports
    (h : m₁.verifierImports.map Stmt.unplaced = m₂.verifierImports.map Stmt.unplaced) :
    (ofModule m₁).Same (ofModule m₂) := by
  rw [ofModule_verifierImports, ofModule_verifierImports, ← foldl_add_unplaced, h, foldl_add_unplaced]
  exact .refl _

theorem Same.of_statements (h : m₁.statements.map Stmt.unplaced = m₂.statements.map Stmt.unplaced) :
    (ofModule m₁).Same (ofModule m₂) := by
  rw [ofModule_statements, ofModule_statements, ← foldl_add_unplaced, h, foldl_add_unplaced]
  exact .refl _

end Verifier

-- The code of `main` for these statements.
def mainOf (v : Verifier) (ss : List PyVerify.Stmt) : List Stmt :=
  let body := ss.flatMap mainBlock
  declarations (locals v [] body) ++ (emitTopLevels v ss (entry v [] body)).value.flatMap Part.mainCode

theorem mainOf_unplaced (h : v.Same w) : mainOf w (ss.map Stmt.unplaced) = mainOf v ss := by
  have hb : (ss.map Stmt.unplaced).flatMap mainBlock = (ss.flatMap mainBlock).map Stmt.unplaced := by
    simp [List.flatMap_map, List.map_flatMap, mainBlock_unplaced]
  simp [mainOf, hb, entry, locals_unplaced h, emitTopLevels_unplaced h]

-- A definition leaves nothing behind: neither code in `main` nor a name in its scope.
theorem emitTopLevel_definition {σ : Scope} (h : s.isDefinition) :
    (emitTopLevel v s σ).value.mainCode = [] ∧ (emitTopLevel v s σ).scope = σ := by
  cases s
  case functionDef isAsync _ _ _ _ => cases isAsync <;> exact ⟨rfl, rfl⟩
  case classDef => exact ⟨rfl, rfl⟩
  all_goals simp [Stmt.isDefinition] at h

theorem mainBlock_definition (h : s.isDefinition) : mainBlock s = [] := by
  cases s
  case functionDef | classDef => rfl
  all_goals simp [Stmt.isDefinition] at h

theorem isSome_definition? : (definition? v s).isSome = s.isDefinition := by
  cases s
  case functionDef isAsync _ _ _ _ => cases isAsync <;> rfl
  all_goals rfl

theorem map_some_definition? (ss : List PyVerify.Stmt) :
    (ss.filterMap (definition? v)).map some = (ss.filter Stmt.isDefinition).map (definition? v) := by
  induction ss
  case nil => rfl
  case cons s ss hi =>
    have hs := isSome_definition? (v := v) (s := s)
    cases hd : definition? v s
    all_goals
      rw [hd] at hs
      simp [hd, ← hs, hi]

theorem mainCode_statements {σ : Scope} :
    (emitTopLevels v (ss.filter (!·.isDefinition)) σ).value.flatMap Part.mainCode =
      (emitTopLevels v ss σ).value.flatMap Part.mainCode := by
  induction ss generalizing σ
  case nil => rfl
  case cons s ss hi =>
    cases hs : s.isDefinition
    case true =>
      obtain ⟨hm, hσ⟩ := emitTopLevel_definition (v := v) (σ := σ) hs
      simp [hs, emitTopLevels, bind, pure, hm, hσ, hi]
    case false => simp [hs, emitTopLevels, bind, pure, hi]

theorem mainBlock_statements : (ss.filter (!·.isDefinition)).flatMap mainBlock = ss.flatMap mainBlock := by
  induction ss
  case nil => rfl
  case cons s ss hi =>
    cases hs : s.isDefinition
    case true   => simp [hs, hi, mainBlock_definition hs]
    case false  => simp [hs, hi]

namespace Translation

theorem main_statements (h : ofModule? m = some t) : t.program.main = mainOf (.ofModule m) m.statements := by
  simp only [ofModule?, ← blockBindings_mainBody] at h
  split at h
  case isTrue   => cases h
  case isFalse  =>
    cases h
    simp [mainOf, Module.statements, mainCode_statements, mainBlock_statements, entry, locals, mainBody]

-- The definitions of the program are those of the module, in the same places.
theorem getElem?_definitions (h : ofModule? m = some t) {i : Nat} (hs : m.definitions[i]? = some s) :
    ∃ d, definition? (.ofModule m) s = some d ∧ t.program.definitions[i]? = some d := by
  have hd := congrArg (·[i]?) (map_some_definition? (v := .ofModule m) m.body)
  rw [← definitions_eq h] at hd
  obtain ⟨d, hp, he⟩ : ∃ d, t.program.definitions[i]? = some d ∧ some d = definition? (.ofModule m) s := by
    simpa [Module.definitions.eq_1 m ▸ hs] using hd
  exact ⟨d, he.symm, hp⟩

-- Functions and `main` are translated independently: the code of `main` depends on the statements that are no
-- definitions, and what a definition becomes depends on itself and on the names of the primitives.
theorem independent (h₁ : ofModule? m₁ = some t₁) (h₂ : ofModule? m₂ = some t₂) :
    (m₁.statements.map Stmt.unplaced = m₂.statements.map Stmt.unplaced → t₁.program.main = t₂.program.main) ∧
      ((Verifier.ofModule m₁).Same (.ofModule m₂) →
        ∀ (i j : Nat) (s₁ s₂ : PyVerify.Stmt), m₁.definitions[i]? = some s₁ → m₂.definitions[j]? = some s₂ →
          s₁.unplaced = s₂.unplaced →
            ∃ d, t₁.program.definitions[i]? = some d ∧ t₂.program.definitions[j]? = some d) := by
  refine ⟨fun hs => ?_, fun hv i j s₁ s₂ hi hj hs => ?_⟩
  case refine_1 =>
    calc
      t₁.program.main = mainOf (.ofModule m₁) m₁.statements                     := main_statements h₁
      _               = mainOf (.ofModule m₂) (m₁.statements.map Stmt.unplaced) :=
        (mainOf_unplaced <| .of_statements hs).symm
      _               = mainOf (.ofModule m₂) (m₂.statements.map Stmt.unplaced) := by rw [hs]
      _               = mainOf (.ofModule m₂) m₂.statements                     := mainOf_unplaced <| .refl _
      _               = t₂.program.main                                         := (main_statements h₂).symm
  case refine_2 =>
    obtain ⟨d₁, he₁, hd₁⟩ := getElem?_definitions h₁ hi
    obtain ⟨d₂, he₂, hd₂⟩ := getElem?_definitions h₂ hj
    have he : some d₁ = some d₂ := by
      rw [← he₁, ← he₂, ← definition?_unplaced hv, hs, definition?_unplaced <| .refl _]
    exact ⟨d₁, hd₁, he ▸ hd₂⟩

-- A function before and behind the same assignment, of a name that the function binds as well.

def assignOne (z : Span) : PyVerify.Stmt :=
  .assign z [.name z "x"] (.constant z (.int 1))

def defineEmpty (z : Span) (name : String) : PyVerify.Stmt :=
  .functionDef z ⟨name, z⟩ false [] [] none [assignOne z, .pass z]

def functionFirst : Module :=
  ⟨[defineEmpty (.point 0) "f", assignOne (.point 9)]⟩

def functionLast : Module :=
  ⟨[defineEmpty (.point 0) "g", assignOne (.point 2), defineEmpty (.point 5) "f"]⟩

theorem independent_functionLast :
    ∃ t₁ t₂, ofModule? functionFirst = some t₁ ∧ ofModule? functionLast = some t₂ ∧
      t₁.program.main = t₂.program.main ∧
        ∃ d, t₁.program.definitions[0]? = some d ∧ t₂.program.definitions[1]? = some d := by
  have h₁ : ofModule? functionFirst = some _ := rfl
  have h₂ : ofModule? functionLast = some _ := rfl
  obtain ⟨hm, hd⟩ := independent h₁ h₂
  exact ⟨_, _, h₁, h₂, hm rfl, hd (.of_verifierImports rfl) 0 1 _ _ rfl rfl rfl⟩

end Translation
end Code
end PyVerify
