import PyVerify.Profile.Basic
import PyVerify.Proofs.Profile.Distinct
import PyVerify.Proofs.Tree.Part

namespace PyVerify

variable {m : Module} {f : Feature} {P : Feature → Prop}

namespace Expr

theorem operator_mem_ownFeatures {e : Expr} {op : BinaryOp} :
    .operator op ∈ e.ownFeatures ↔ ∃ s l r, e = .binary s l op r := by
  cases e <;> simp [ownFeatures, eq_comm]

theorem subscript_mem_ownFeatures {e : Expr} :
    .subscript ∈ e.ownFeatures ↔ ∃ s x i, e = .subscript s x i := by
  cases e <;> simp [ownFeatures]

theorem attribute_mem_ownFeatures {e : Expr} :
    .attribute ∈ e.ownFeatures ↔ ∃ s x name, e = .attr s x name := by
  cases e <;> simp [ownFeatures]

end Expr

namespace Stmt

theorem operator_mem_ownFeatures {t : Stmt} {op : BinaryOp} {k : Nat} :
    .operator op ∈ t.ownFeatures k ↔ ∃ s target e, t = .augAssign s target op e := by
  fun_cases ownFeatures k t <;> simp_all
  exact eq_comm

theorem conditional_mem_ownFeatures {t : Stmt} {k : Nat} :
    .conditional ∈ t.ownFeatures k ↔
      (∃ s test block other, t = .if s test block other) ∨ ∃ s subject cases, t = .match s subject cases := by
  fun_cases ownFeatures k t <;> simp_all

theorem exception_mem_ownFeatures {t : Stmt} {k : Nat} :
    .exception ∈ t.ownFeatures k ↔
      (∃ s isStar block handlers other final, t = .try s isStar block handlers other final) ∨
      ∃ s exc cause, t = .raise s exc cause := by
  fun_cases ownFeatures k t <;> simp_all

theorem loop_mem_ownFeatures {t : Stmt} {k l : Nat} :
    .loop l ∈ t.ownFeatures k ↔
      l = k + 1 ∧ ((∃ s isAsync target iter block other, t = .for s isAsync target iter block other) ∨
        ∃ s test block other, t = .while s test block other) := by
  fun_cases ownFeatures k t <;> simp_all

end Stmt

theorem Expr.mem_features_iff (e : Expr) :
    f ∈ e.features ↔ ∃ x, Within (.expr x) (.expr e) ∧ f ∈ x.ownFeatures := by
  have hc : ∀ c ∈ e.children, f ∈ c.features ↔ ∃ x, Within (.expr x) (.expr c) ∧ f ∈ x.ownFeatures := by
    intro c hc
    have := sizeOf_lt_of_mem_children hc
    exact mem_features_iff c
  have hw (x : Expr) := within_expr_iff (n := .expr x) (e := e)
  rw [features]
  simp
  grind
termination_by sizeOf e

-- A property of features that does not ask how deep a loop is.
def DepthBlind (P : Feature → Prop) : Prop :=
  ∀ k l, P (.loop k) → P (.loop l)

theorem DepthBlind.ownFeatures (h : DepthBlind P) (k l : Nat) {s : Stmt} :
    (∃ f ∈ s.ownFeatures k, P f) → ∃ f ∈ s.ownFeatures l, P f := by
  rintro ⟨f, hf, hp⟩
  cases s
  case «for» | «while» =>
    obtain rfl := List.mem_singleton.mp hf
    exact ⟨_, List.mem_singleton_self _, h _ _ hp⟩
  case importFrom module _ _ => cases module <;> exact ⟨f, hf, hp⟩
  all_goals exact ⟨f, hf, hp⟩

theorem Stmt.exists_feature_iff (h : DepthBlind P) (k : Nat) (s : Stmt) :
    (∃ f ∈ s.features k, P f) ↔
      (∃ x, Within (.expr x) (.stmt s) ∧ ∃ f ∈ x.ownFeatures, P f) ∨
      ∃ t, Within (.stmt t) (.stmt s) ∧ ∃ f ∈ t.ownFeatures 0, P f := by
  let below := if s.isLoop then k + 1 else k
  have hc : ∀ c ∈ s.children, (∃ f ∈ c.features below, P f) ↔
      (∃ x, Within (.expr x) (.stmt c) ∧ ∃ f ∈ x.ownFeatures, P f) ∨
      ∃ t, Within (.stmt t) (.stmt c) ∧ ∃ f ∈ t.ownFeatures 0, P f := by
    intro c hc
    have := sizeOf_lt_of_mem_children hc
    exact exists_feature_iff h below c
  have ho : (∃ f ∈ s.ownFeatures k, P f) ↔ ∃ f ∈ s.ownFeatures 0, P f :=
    ⟨h.ownFeatures k 0, h.ownFeatures 0 k⟩
  have hs : (∃ f ∈ s.features k, P f) ↔
      (∃ f ∈ s.ownFeatures 0, P f) ∨
      (∃ e ∈ s.exprs, ∃ x, Within (.expr x) (.expr e) ∧ ∃ f ∈ x.ownFeatures, P f) ∨
      ∃ c ∈ s.children, ∃ f ∈ c.features below, P f := by
    rw [features, ←ho]
    simp [Expr.mem_features_iff]
    grind
  have hx (x : Expr) := within_stmt_expr_iff (x := x) (s := s)
  have ht (t : Stmt) := within_stmt_stmt_iff (t := t) (s := s)
  rw [hs]
  grind
termination_by sizeOf s

theorem Module.exists_feature_iff (h : DepthBlind P) :
    (∃ f ∈ m.features, P f) ↔
      (∃ x, m.Occurs (.expr x) ∧ ∃ f ∈ x.ownFeatures, P f) ∨
      ∃ t, m.Occurs (.stmt t) ∧ ∃ f ∈ t.ownFeatures 0, P f := by
  have hm : (∃ f ∈ m.features, P f) ↔ ∃ s ∈ m.body, ∃ f ∈ s.features 0, P f := by
    simp only [features, List.mem_flatMap]
    grind
  simp only [hm, Stmt.exists_feature_iff h, Occurs]
  grind

theorem Module.mem_features_iff (hf : ∀ k, f ≠ .loop k) :
    f ∈ m.features ↔
      (∃ x, m.Occurs (.expr x) ∧ f ∈ x.ownFeatures) ∨
        ∃ t, m.Occurs (.stmt t) ∧ f ∈ t.ownFeatures 0 := by
  have hp : DepthBlind (· = f) := fun k _ hk => absurd hk.symm (hf k)
  simpa using m.exists_feature_iff hp

-- An operator stands between two operands or in an assignment.
def Module.Applies (m : Module) (op : BinaryOp) : Prop :=
  (∃ s l r, m.Occurs (.expr (.binary s l op r))) ∨ ∃ s t e, m.Occurs (.stmt (.augAssign s t op e))

namespace Module

theorem applies_iff {op : BinaryOp} : .operator op ∈ m.features ↔ m.Applies op := by
  simp only [mem_features_iff (f := .operator op) (by simp), Expr.operator_mem_ownFeatures,
    Stmt.operator_mem_ownFeatures, Applies]
  grind

theorem subscript_mem_features_iff :
    .subscript ∈ m.features ↔ ∃ s e i, m.Occurs (.expr (.subscript s e i)) := by
  simp only [mem_features_iff (f := .subscript) (by simp), Expr.subscript_mem_ownFeatures,
    Stmt.not_access_mem_ownFeatures]
  grind

theorem attribute_mem_features_iff :
    .attribute ∈ m.features ↔ ∃ s e name, m.Occurs (.expr (.attr s e name)) := by
  simp only [mem_features_iff (f := .attribute) (by simp), Expr.attribute_mem_ownFeatures,
    Stmt.not_access_mem_ownFeatures]
  grind

theorem conditional_mem_features_iff :
    .conditional ∈ m.features ↔
      (∃ s test block other, m.Occurs (.stmt (.if s test block other))) ∨
      ∃ s subject cases, m.Occurs (.stmt (.match s subject cases)) := by
  rw [mem_features_iff (by simp)]
  simp only [Stmt.conditional_mem_ownFeatures]
  grind [Expr.ownFeatures_cases]

theorem exception_mem_features_iff :
    .exception ∈ m.features ↔
      (∃ s isStar block handlers other final,
        m.Occurs (.stmt (.try s isStar block handlers other final))) ∨
      ∃ s exc cause, m.Occurs (.stmt (.raise s exc cause)) := by
  rw [mem_features_iff (by simp)]
  simp only [Stmt.exception_mem_ownFeatures]
  grind [Expr.ownFeatures_cases]

theorem loop_mem_features_iff :
    (∃ k, .loop k ∈ m.features) ↔
      (∃ s isAsync target iter block other, m.Occurs (.stmt (.for s isAsync target iter block other))) ∨
      ∃ s test block other, m.Occurs (.stmt (.while s test block other)) := by
  have hp : DepthBlind fun f => ∃ k, f = .loop k := fun _ l _ => ⟨l, rfl⟩
  have hm : (∃ k, .loop k ∈ m.features) ↔ ∃ f ∈ m.features, ∃ k, f = .loop k := by grind
  have hx (x : Expr) : ¬∃ f ∈ x.ownFeatures, ∃ k, f = .loop k := by grind [Expr.ownFeatures_cases]
  have ht (t : Stmt) : (∃ f ∈ t.ownFeatures 0, ∃ k, f = .loop k) ↔ ∃ k, .loop k ∈ t.ownFeatures 0 := by
    grind
  simp only [hm, exists_feature_iff hp, hx, ht, Stmt.loop_mem_ownFeatures]
  grind

end Module

-- What gives reason for a check.
inductive Feature.Warrants : Feature → Check → Prop
  | overflow  (h : op ∈ [.add, .sub, .mul])       : Warrants (.operator op) .overflow
  | divByZero (h : op ∈ [.div, .floorDiv, .mod])  : Warrants (.operator op) .divByZero
  | bounds                                        : Warrants .subscript .bounds
  | pointer                                       : Warrants .attribute .pointer

namespace Profile

variable {fs : List Feature} {c : Check} {p : BinaryOp → Bool}

theorem any_operators_iff :
    (fs.filterMap Feature.operator?).any p ↔ ∃ op, p op ∧ .operator op ∈ fs := by
  have (f : Feature) (op : BinaryOp) : f.operator? = some op ↔ f = .operator op := by
    cases f <;> simp [Feature.operator?]
  simp only [List.any_eq_true, List.mem_filterMap, this, exists_eq_right]
  grind

theorem hasArithmetic_iff :
    (ofFeatures fs).hasArithmetic ↔ ∃ op ∈ [.add, .sub, .mul], .operator op ∈ fs := by
  have (op : BinaryOp) : op.isArithmetic ↔ op ∈ [.add, .sub, .mul] := by cases op <;> decide
  simp only [ofFeatures, any_operators_iff, this]

theorem hasDivision_iff :
    (ofFeatures fs).hasDivision ↔ ∃ op ∈ [.div, .floorDiv, .mod], .operator op ∈ fs := by
  have (op : BinaryOp) : op.isDivision ↔ op ∈ [.div, .floorDiv, .mod] := by cases op <;> decide
  simp only [ofFeatures, any_operators_iff, this]

theorem hasMultiplication_iff : (ofFeatures fs).hasMultiplication ↔ .operator .mul ∈ fs := by
  simp only [ofFeatures, List.contains_eq_any_beq, any_operators_iff]
  simp

-- What a check is recommended for.
def Grounds (fs : List Feature) : Check → Prop
  | .overflow   => (ofFeatures fs).hasArithmetic ∨ (ofFeatures fs).hasMultiplication
  | .bounds     => .subscript ∈ fs
  | .divByZero  => (ofFeatures fs).hasDivision
  | .pointer    => .attribute ∈ fs

theorem mem_recommended_iff : c ∈ (ofFeatures fs).recommended ↔ ∃ f ∈ fs, f.Warrants c := by
  have hc : c ∈ (ofFeatures fs).recommended ↔ Grounds fs c := by
    cases c <;> simp [Grounds, ofFeatures, derivedChecks]
  rw [hc]
  constructor
  case mp =>
    cases c
    case overflow =>
      rw [Grounds, hasArithmetic_iff, hasMultiplication_iff]
      rintro (⟨op, ho, hf⟩ | hf) <;> exact ⟨_, hf, .overflow <| by simp_all⟩
    case bounds     => exact fun hf => ⟨_, hf, .bounds⟩
    case divByZero  =>
      rw [Grounds, hasDivision_iff]
      rintro ⟨op, ho, hf⟩
      exact ⟨_, hf, .divByZero ho⟩
    case pointer    => exact fun hf => ⟨_, hf, .pointer⟩
  case mpr =>
    rintro ⟨f, hf, w⟩
    cases w
    case overflow op ho   => exact .inl <| hasArithmetic_iff.mpr ⟨op, ho, hf⟩
    case divByZero op ho  => exact hasDivision_iff.mpr ⟨op, ho, hf⟩
    all_goals exact hf

theorem hasLoops_iff : (ofFeatures fs).hasLoops ↔ ∃ k, .loop k ∈ fs := by
  have (f : Feature) (k : Nat) : f.loopDepth? = some k ↔ f = .loop k := by
    cases f <;> simp [Feature.loopDepth?]
  simp [ofFeatures, Option.eq_none_iff_forall_ne_some, this]

end Profile

-- The names that are defined in a tree, one for each definition.

def Stmt.functionName? : Stmt → Option String
  | functionDef _ name .. => some name.text
  | _                     => none

def Stmt.className? : Stmt → Option String
  | classDef _ name ..  => some name.text
  | _                   => none

-- A part of the features that statements contribute alone, whatever loops they are in.
theorem Stmt.filterMap_features {α : Type} {g : Feature → Option α} {own : Stmt → Option α}
    (hx : ∀ x : Expr, x.ownFeatures.filterMap g = [])
    (ht : ∀ (t : Stmt) (k : Nat), (t.ownFeatures k).filterMap g = (own t).toList) (k : Nat) (s : Stmt) :
    (s.features k).filterMap g = s.sequence.filterMap own := by
  have he (e : Expr) : e.features.filterMap g = [] := by
    simp only [List.filterMap_eq_nil_iff, Expr.mem_features_iff] at hx ⊢
    exact fun f ⟨x, _, hf⟩ => hx x f hf
  have hc : ∀ c ∈ s.children, ∀ k, (c.features k).filterMap g = c.sequence.filterMap own := by
    intro c hc k
    have := sizeOf_lt_of_mem_children hc
    exact filterMap_features hx ht k c
  have hb : s.children.flatMap (fun c => (c.features (if s.isLoop then k + 1 else k)).filterMap g) =
      s.children.flatMap fun c => c.sequence.filterMap own :=
    List.flatMap_congr fun c h => hc c h _
  rw [features, sequence_eq]
  cases h : own s <;> simp [ht, he, h, hb, List.filterMap_flatMap]
termination_by sizeOf s

theorem Module.filterMap_features {α : Type} {g : Feature → Option α} {own : Stmt → Option α}
    (hx : ∀ x : Expr, x.ownFeatures.filterMap g = [])
    (ht : ∀ (t : Stmt) (k : Nat), (t.ownFeatures k).filterMap g = (own t).toList) :
    m.features.filterMap g = m.sequence.filterMap own := by
  simp [features, sequence, Block.sequence_eq, List.filterMap_flatMap, Stmt.filterMap_features hx ht]

namespace Module

theorem functionNames_eq :
    m.features.filterMap Feature.functionName? = m.sequence.filterMap Stmt.functionName? := by
  apply filterMap_features
  case hx => intro x; cases x <;> rfl
  case ht =>
    intro t k
    fun_cases Stmt.ownFeatures k t <;> simp_all [Feature.functionName?, Stmt.functionName?]

theorem classNames_eq :
    m.features.filterMap Feature.className? = m.sequence.filterMap Stmt.className? := by
  apply filterMap_features
  case hx => intro x; cases x <;> rfl
  case ht =>
    intro t k
    fun_cases Stmt.ownFeatures k t <;> simp_all [Feature.className?, Stmt.className?]

theorem mem_functionNames_iff {name : String} :
    name ∈ m.sequence.filterMap Stmt.functionName? ↔
      ∃ s i isAsync decorators params returns block, i.text = name ∧
        m.Occurs (.stmt (.functionDef s i isAsync decorators params returns block)) := by
  have (t : Stmt) : t.functionName? = some name ↔
      ∃ s i isAsync decorators params returns block, i.text = name ∧
        t = .functionDef s i isAsync decorators params returns block := by
    cases t <;> simp [Stmt.functionName?]
  simp only [List.mem_filterMap, mem_sequence_iff, this]
  grind

theorem mem_classNames_iff {name : String} :
    name ∈ m.sequence.filterMap Stmt.className? ↔
      ∃ s i decorators bases keywords block, i.text = name ∧
        m.Occurs (.stmt (.classDef s i decorators bases keywords block)) := by
  have (t : Stmt) : t.className? = some name ↔
      ∃ s i decorators bases keywords block, i.text = name ∧
        t = .classDef s i decorators bases keywords block := by
    cases t <;> simp [Stmt.className?]
  simp only [List.mem_filterMap, mem_sequence_iff, this]
  grind

end Module

-- What a profile says is what occurs in the tree, at any depth.
structure Profile.Exact (m : Module) (p : Profile) : Prop where
  overflow      : .overflow ∈ p.recommended ↔ m.Applies .add ∨ m.Applies .sub ∨ m.Applies .mul
  divByZero     : .divByZero ∈ p.recommended ↔
                    m.Applies .div ∨ m.Applies .floorDiv ∨ m.Applies .mod
  bounds        : .bounds ∈ p.recommended ↔ ∃ s e i, m.Occurs (.expr (.subscript s e i))
  pointer       : .pointer ∈ p.recommended ↔ ∃ s e name, m.Occurs (.expr (.attr s e name))
  loops         : p.hasLoops ↔
                    (∃ s isAsync target iter block other,
                      m.Occurs (.stmt (.for s isAsync target iter block other))) ∨
                    ∃ s test block other, m.Occurs (.stmt (.while s test block other))
  conditionals  : p.hasConditionals ↔
                    (∃ s test block other, m.Occurs (.stmt (.if s test block other))) ∨
                    ∃ s subject cases, m.Occurs (.stmt (.match s subject cases))
  exceptions    : p.hasExceptions ↔
                    (∃ s isStar block handlers other final,
                      m.Occurs (.stmt (.try s isStar block handlers other final))) ∨
                    ∃ s exc cause, m.Occurs (.stmt (.raise s exc cause))
  function_iff  : ∀ name, name ∈ p.functions ↔
                    ∃ s i isAsync decorators params returns block, i.text = name ∧
                      m.Occurs (.stmt (.functionDef s i isAsync decorators params returns block))
  class_iff     : ∀ name, name ∈ p.classes ↔
                    ∃ s i decorators bases keywords block, i.text = name ∧
                      m.Occurs (.stmt (.classDef s i decorators bases keywords block))
  functions     : FirstOccurrences (m.sequence.filterMap Stmt.functionName?) p.functions
  classes       : FirstOccurrences (m.sequence.filterMap Stmt.className?) p.classes

theorem Profile.ofModule_exact (m : Module) : (ofModule m).Exact m := by
  have hf : FirstOccurrences (m.sequence.filterMap Stmt.functionName?) (ofModule m).functions :=
    Module.functionNames_eq ▸ distinct_firstOccurrences _
  have hc : FirstOccurrences (m.sequence.filterMap Stmt.className?) (ofModule m).classes :=
    Module.classNames_eq ▸ distinct_firstOccurrences _
  have hr (c : Check) : c ∈ (ofModule m).recommended ↔ ∃ f ∈ m.features, f.Warrants c :=
    mem_recommended_iff
  constructor
  case overflow =>
    simp only [hr, ←Module.applies_iff]
    constructor
    case mp   => rintro ⟨_, hf, ⟨ho⟩⟩; grind
    case mpr  => rintro (h | h | h) <;> exact ⟨_, h, .overflow <| by decide⟩
  case divByZero =>
    simp only [hr, ←Module.applies_iff]
    constructor
    case mp   => rintro ⟨_, hf, ⟨ho⟩⟩; grind
    case mpr  => rintro (h | h | h) <;> exact ⟨_, h, .divByZero <| by decide⟩
  case bounds =>
    rw [hr, ←Module.subscript_mem_features_iff]
    constructor
    case mp   => rintro ⟨_, hf, ⟨⟩⟩; exact hf
    case mpr  => exact fun h => ⟨_, h, .bounds⟩
  case pointer =>
    rw [hr, ←Module.attribute_mem_features_iff]
    constructor
    case mp   => rintro ⟨_, hf, ⟨⟩⟩; exact hf
    case mpr  => exact fun h => ⟨_, h, .pointer⟩
  case loops        => exact hasLoops_iff.trans Module.loop_mem_features_iff
  case conditionals => exact List.contains_iff_mem.trans Module.conditional_mem_features_iff
  case exceptions   => exact List.contains_iff_mem.trans Module.exception_mem_features_iff
  case function_iff => exact fun name => (hf.mem_iff name).trans Module.mem_functionNames_iff
  case class_iff    => exact fun name => (hc.mem_iff name).trans Module.mem_classNames_iff
  case functions    => exact hf
  case classes      => exact hc

end PyVerify
