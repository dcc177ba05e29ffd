import Mathlib.Logic.Relation
import PyVerify.Tree.Stmt

namespace PyVerify

-- Whatever can stand in the tree of a program.
inductive Node where
  | expr (e : Expr)
  | pattern (p : Pattern)
  | stmt (s : Stmt)

inductive Param.Holds (p : Param Expr) : Expr → Prop
  | type (h : p.annotation = some x)          : Holds p x
  | default    (h : p.defaultValue = some x)  : Holds p x

inductive Generator.Holds (g : Generator Expr) : Expr → Prop
  | target                          : Holds g g.target
  | iter                            : Holds g g.iter
  | condition (h : x ∈ g.conditions)  : Holds g x

inductive DictEntry.Holds : DictEntry Expr → Expr → Prop
  | key     : Holds (.pair key value) key
  | value   : Holds (.pair key value) value
  | mapping : Holds (.unpack mapping) mapping

-- A node stands directly below another one. Each place that a node can stand at has its constructor here,
-- without a use of the lists of children that the walks over a tree go by.
inductive Part : Node → Node → Prop
  -- below an expression
  | left            : Part (.expr left) (.expr (.binary s left op right))
  | right           : Part (.expr right) (.expr (.binary s left op right))
  | operand         : Part (.expr operand) (.expr (.unary s sign operand))
  | value (h : x ∈ values) : Part (.expr x) (.expr (.bool s junction values))
  | compared        : Part (.expr left) (.expr (.compare s left links))
  | link (h : (relation, x) ∈ links) : Part (.expr x) (.expr (.compare s left links))
  | func            : Part (.expr func) (.expr (.call s func args keywords))
  | arg (h : x ∈ args) : Part (.expr x) (.expr (.call s func args keywords))
  | keyword (h : k ∈ keywords) : Part (.expr k.value) (.expr (.call s func args keywords))
  | receiver        : Part (.expr e) (.expr (.attr s e name))
  | indexed         : Part (.expr e) (.expr (.subscript s e index))
  | index           : Part (.expr index) (.expr (.subscript s e index))
  | lower           : Part (.expr e) (.expr (.slice s (some e) upper step))
  | upper           : Part (.expr e) (.expr (.slice s lower (some e) step))
  | step            : Part (.expr e) (.expr (.slice s lower upper (some e)))
  | starred         : Part (.expr e) (.expr (.starred s e))
  | tupleItem (h : x ∈ items) : Part (.expr x) (.expr (.tuple s items))
  | listItem (h : x ∈ items) : Part (.expr x) (.expr (.list s items))
  | setItem (h : x ∈ items) : Part (.expr x) (.expr (.set s items))
  | entry (h : d ∈ entries) (hd : d.Holds x) : Part (.expr x) (.expr (.dict s entries))
  | test            : Part (.expr test) (.expr (.conditional s test body orelse))
  | body            : Part (.expr body) (.expr (.conditional s test body orelse))
  | orelse          : Part (.expr orelse) (.expr (.conditional s test body orelse))
  | lambdaParam (h : p ∈ params) (hp : p.Holds x) : Part (.expr x) (.expr (.lambda s params body))
  | lambdaBody      : Part (.expr body) (.expr (.lambda s params body))
  | listCompItem    : Part (.expr item) (.expr (.listComp s item gens))
  | listCompGen (h : g ∈ gens) (hg : g.Holds x) : Part (.expr x) (.expr (.listComp s item gens))
  | setCompItem     : Part (.expr item) (.expr (.setComp s item gens))
  | setCompGen (h : g ∈ gens) (hg : g.Holds x) : Part (.expr x) (.expr (.setComp s item gens))
  | dictCompKey     : Part (.expr key) (.expr (.dictComp s key e gens))
  | dictCompValue   : Part (.expr e) (.expr (.dictComp s key e gens))
  | dictCompGen (h : g ∈ gens) (hg : g.Holds x) : Part (.expr x) (.expr (.dictComp s key e gens))
  | generatorItem   : Part (.expr item) (.expr (.generator s item gens))
  | generatorGen (h : g ∈ gens) (hg : g.Holds x) : Part (.expr x) (.expr (.generator s item gens))
  | namedTarget     : Part (.expr target) (.expr (.named s target e))
  | namedValue      : Part (.expr e) (.expr (.named s target e))
  | await           : Part (.expr e) (.expr (.await s e))
  | yield           : Part (.expr e) (.expr (.yield s (some e)))
  | yieldFrom       : Part (.expr e) (.expr (.yieldFrom s e))
  -- below a pattern
  | literal         : Part (.expr e) (.pattern (.value s e))
  | sequenceItem (h : p ∈ items) : Part (.pattern p) (.pattern (.sequence s items))
  | mappingKey (h : (e, p) ∈ entries) : Part (.expr e) (.pattern (.mapping s entries rest))
  | mappingValue (h : (e, p) ∈ entries) : Part (.pattern p) (.pattern (.mapping s entries rest))
  | cls             : Part (.expr cls) (.pattern (.class s cls items keywords))
  | classItem (h : p ∈ items) : Part (.pattern p) (.pattern (.class s cls items keywords))
  | classKeyword (h : (name, p) ∈ keywords) :
      Part (.pattern p) (.pattern (.class s cls items keywords))
  | alternative (h : p ∈ alternatives) : Part (.pattern p) (.pattern (.or s alternatives))
  | named           : Part (.pattern p) (.pattern (.as s p name))
  -- below a statement
  | functionDecorator (h : x ∈ decorators) :
      Part (.expr x) (.stmt (.functionDef s name isAsync decorators params returns block))
  | functionParam (h : p ∈ params) (hp : p.Holds x) :
      Part (.expr x) (.stmt (.functionDef s name isAsync decorators params returns block))
  | functionResult :
      Part (.expr e) (.stmt (.functionDef s name isAsync decorators params (some e) block))
  | functionBody (h : t ∈ block) :
      Part (.stmt t) (.stmt (.functionDef s name isAsync decorators params returns block))
  | classDecorator (h : x ∈ decorators) :
      Part (.expr x) (.stmt (.classDef s name decorators bases keywords block))
  | base (h : x ∈ bases) :
      Part (.expr x) (.stmt (.classDef s name decorators bases keywords block))
  | classArgument (h : k ∈ keywords) :
      Part (.expr k.value) (.stmt (.classDef s name decorators bases keywords block))
  | classBody (h : t ∈ block) :
      Part (.stmt t) (.stmt (.classDef s name decorators bases keywords block))
  | returned        : Part (.expr e) (.stmt (.return s (some e)))
  | deleted (h : x ∈ targets) : Part (.expr x) (.stmt (.delete s targets))
  | assigned (h : x ∈ targets) : Part (.expr x) (.stmt (.assign s targets e))
  | assignment      : Part (.expr e) (.stmt (.assign s targets e))
  | augmented       : Part (.expr target) (.stmt (.augAssign s target op e))
  | augment         : Part (.expr e) (.stmt (.augAssign s target op e))
  | annotated       : Part (.expr target) (.stmt (.annAssign s target annotation value))
  | annotation      : Part (.expr annotation) (.stmt (.annAssign s target annotation value))
  | annotatedValue  : Part (.expr e) (.stmt (.annAssign s target annotation (some e)))
  | forTarget       : Part (.expr target) (.stmt (.for s isAsync target iter block other))
  | forIter         : Part (.expr iter) (.stmt (.for s isAsync target iter block other))
  | forBody (h : t ∈ block) : Part (.stmt t) (.stmt (.for s isAsync target iter block other))
  | forElse (h : t ∈ other) : Part (.stmt t) (.stmt (.for s isAsync target iter block other))
  | whileTest       : Part (.expr test) (.stmt (.while s test block other))
  | whileBody (h : t ∈ block) : Part (.stmt t) (.stmt (.while s test block other))
  | whileElse (h : t ∈ other) : Part (.stmt t) (.stmt (.while s test block other))
  | ifTest          : Part (.expr test) (.stmt (.if s test block other))
  | ifBody (h : t ∈ block) : Part (.stmt t) (.stmt (.if s test block other))
  | ifElse (h : t ∈ other) : Part (.stmt t) (.stmt (.if s test block other))
  | context (h : i ∈ items) : Part (.expr i.context) (.stmt (.with s isAsync items block))
  | binding (h : i ∈ items) (hi : i.binding = some x) :
      Part (.expr x) (.stmt (.with s isAsync items block))
  | withBody (h : t ∈ block) : Part (.stmt t) (.stmt (.with s isAsync items block))
  | exception       : Part (.expr e) (.stmt (.raise s (some e) cause))
  | cause           : Part (.expr e) (.stmt (.raise s exc (some e)))
  | tried (h : t ∈ block) : Part (.stmt t) (.stmt (.try s isStar block handlers other final))
  | caught (h : c ∈ handlers) (hc : c.type = some x) :
      Part (.expr x) (.stmt (.try s isStar block handlers other final))
  | handler (h : c ∈ handlers) (hc : t ∈ c.body) :
      Part (.stmt t) (.stmt (.try s isStar block handlers other final))
  | tryElse (h : t ∈ other) : Part (.stmt t) (.stmt (.try s isStar block handlers other final))
  | tryFinally (h : t ∈ final) : Part (.stmt t) (.stmt (.try s isStar block handlers other final))
  | subject         : Part (.expr subject) (.stmt (.match s subject cases))
  | casePattern (h : c ∈ cases) : Part (.pattern c.pattern) (.stmt (.match s subject cases))
  | guard (h : c ∈ cases) (hc : c.guard = some x) : Part (.expr x) (.stmt (.match s subject cases))
  | caseBody (h : c ∈ cases) (hc : t ∈ c.body) : Part (.stmt t) (.stmt (.match s subject cases))
  | aliased         : Part (.expr e) (.stmt (.typeAlias s name typeParams e))
  | asserted        : Part (.expr test) (.stmt (.assert s test message))
  | message         : Part (.expr e) (.stmt (.assert s test (some e)))
  | alone           : Part (.expr e) (.stmt (.expr s e))

variable {n : Node} {x e : Expr} {p q : Pattern} {s t : Stmt}

theorem Param.holds_iff {p : Param Expr} : p.Holds x ↔ x ∈ p.exprs := by
  simp only [exprs, List.mem_append, Option.mem_toList]
  constructor
  case mp   => intro h; cases h <;> simp_all
  case mpr  => exact fun h => h.elim .type .default

theorem Generator.holds_iff {g : Generator Expr} : g.Holds x ↔ x ∈ g.exprs := by
  simp only [exprs, List.mem_cons]
  constructor
  case mp   => intro h; cases h <;> simp_all
  case mpr  => exact fun h => h.elim (· ▸ .target) fun h => h.elim (· ▸ .iter) .condition

theorem DictEntry.holds_iff {d : DictEntry Expr} : d.Holds x ↔ x ∈ d.exprs := by
  constructor
  case mp => rintro (_ | _ | _) <;> simp [exprs]
  case mpr =>
    cases d <;> simp only [exprs, List.mem_cons, List.not_mem_nil, or_false]
    case pair   => rintro (rfl | rfl) <;> constructor
    case unpack => rintro rfl; constructor

theorem part_expr_iff : Part n (.expr e) ↔ ∃ x ∈ e.children, n = .expr x := by
  constructor
  case mp =>
    intro h
    cases h
    all_goals simp_all [Expr.children, Param.holds_iff, Generator.holds_iff, DictEntry.holds_iff]
    all_goals grind
  case mpr =>
    rintro ⟨x, h, rfl⟩
    cases e
    all_goals
      simp [Expr.children, ←Param.holds_iff, ←Generator.holds_iff, ←DictEntry.holds_iff] at h
    all_goals grind [Part]

theorem part_pattern_iff :
    Part n (.pattern p) ↔ (∃ x ∈ p.exprs, n = .expr x) ∨ ∃ q ∈ p.children, n = .pattern q := by
  constructor
  case mp =>
    intro h
    cases h
    all_goals simp [Pattern.exprs, Pattern.children]
    all_goals grind
  case mpr =>
    rintro (⟨x, h, rfl⟩ | ⟨q, h, rfl⟩)
    all_goals
      cases p
      all_goals simp [Pattern.exprs, Pattern.children] at h
      all_goals grind [Part]

theorem part_stmt_stmt_iff : Part (.stmt t) (.stmt s) ↔ t ∈ s.children := by
  constructor
  case mp =>
    intro h
    cases h
    all_goals simp_all [Stmt.children, Stmt.blocks]
    all_goals grind
  case mpr =>
    intro h
    cases s
    all_goals simp [Stmt.children, Stmt.blocks] at h
    all_goals grind [Part]

theorem part_stmt_expr_iff :
    x ∈ s.exprs ↔ Part (.expr x) (.stmt s) ∨ ∃ p, Part (.pattern p) (.stmt s) ∧ x ∈ p.allExprs := by
  constructor
  case mpr =>
    rintro (h | ⟨p, h, hx⟩)
    all_goals
      cases h
      all_goals simp_all [Stmt.exprs, Param.holds_iff, WithItem.exprs, MatchCase.exprs]
      all_goals grind
  case mp =>
    intro h
    cases s
    all_goals simp [Stmt.exprs, ←Param.holds_iff, WithItem.exprs, MatchCase.exprs] at h
    all_goals grind [Part]

-- A node stands somewhere below another one, or is this node.
def Within : Node → Node → Prop :=
  Relation.ReflTransGen Part

-- A node stands in a program.
def Module.Occurs (m : Module) (n : Node) : Prop :=
  ∃ s ∈ m.body, Within n (.stmt s)

theorem within_iff {n m : Node} : Within n m ↔ m = n ∨ ∃ k, Within n k ∧ Part k m :=
  Relation.ReflTransGen.cases_tail_iff ..

-- Only statements have statements in them.
theorem Within.stmt (h : Within (.stmt t) n) : ∃ s, n = .stmt s := by
  induction h
  case refl => exact ⟨t, rfl⟩
  case tail hp hi =>
    obtain ⟨_, rfl⟩ := hi
    cases hp
    all_goals exact ⟨_, rfl⟩

theorem within_expr_iff : Within n (.expr e) ↔ .expr e = n ∨ ∃ x ∈ e.children, Within n (.expr x) := by
  rw [within_iff]
  simp only [part_expr_iff]
  grind

theorem within_leaf_iff (h : e.children = []) : Within n (.expr e) ↔ .expr e = n := by
  rw [within_expr_iff, h]
  simp

-- Something holds of an expression and of all expressions in it.
def Expr.Every (P : Expr → Prop) (e : Expr) : Prop :=
  ∀ x, Within (.expr x) (.expr e) → P x

theorem Expr.every_iff {P : Expr → Prop} : e.Every P ↔ P e ∧ ∀ x ∈ e.children, x.Every P := by
  unfold Every
  constructor
  case mp =>
    exact fun h => ⟨h e .refl, fun x hx y hy => h y <| within_expr_iff.mpr <| .inr ⟨x, hx, hy⟩⟩
  case mpr =>
    rintro ⟨he, hc⟩ x hx
    obtain h | ⟨y, hy, hx⟩ := within_expr_iff.mp hx
    · obtain rfl := Node.expr.inj h
      exact he
    · exact hc y hy x hx

theorem Expr.every_leaf_iff {P : Expr → Prop} (h : e.children = []) : e.Every P ↔ P e := by
  rw [every_iff, h]
  simp

theorem Expr.Every.self {P : Expr → Prop} (h : e.Every P) : P e :=
  h e .refl

theorem Expr.Every.imp {P Q : Expr → Prop} (h : e.Every P) (hi : ∀ {x}, P x → Q x) : e.Every Q :=
  fun x hx => hi (h x hx)

theorem Expr.Every.part {P : Expr → Prop} (h : e.Every P) (hx : x ∈ e.children) : x.Every P :=
  (every_iff.mp h).right x hx

theorem within_pattern_iff (p : Pattern) :
    Within (.expr x) (.pattern p) ↔ ∃ y ∈ p.allExprs, Within (.expr x) (.expr y) := by
  have hc : ∀ q ∈ p.children, Within (.expr x) (.pattern q) ↔
      ∃ y ∈ q.allExprs, Within (.expr x) (.expr y) := by
    intro q hq
    have := Pattern.sizeOf_lt_of_mem_children hq
    exact within_pattern_iff q
  rw [within_iff, Pattern.allExprs]
  simp only [part_pattern_iff]
  simp
  grind
termination_by sizeOf p

theorem within_stmt_expr_iff :
    Within (.expr x) (.stmt s) ↔
      (∃ y ∈ s.exprs, Within (.expr x) (.expr y)) ∨ ∃ t ∈ s.children, Within (.expr x) (.stmt t) := by
  simp only [part_stmt_expr_iff, ←part_stmt_stmt_iff]
  constructor
  case mp =>
    intro h
    obtain h | ⟨n, hn, hp⟩ := within_iff.mp h
    case inl => cases h
    case inr =>
      cases n
      case expr y => exact .inl ⟨y, .inl hp, hn⟩
      case stmt t => exact .inr ⟨t, hp, hn⟩
      case pattern q =>
        obtain ⟨y, hy, hx⟩ := (within_pattern_iff q).mp hn
        exact .inl ⟨y, .inr ⟨q, hp, hy⟩, hx⟩
  case mpr =>
    rintro (⟨y, hy | ⟨q, hq, hy⟩, hx⟩ | ⟨t, ht, hx⟩)
    · exact .tail hx hy
    · exact .tail ((within_pattern_iff q).mpr ⟨y, hy, hx⟩) hq
    · exact .tail hx ht

theorem within_stmt_stmt_iff :
    Within (.stmt t) (.stmt s) ↔ s = t ∨ ∃ u ∈ s.children, Within (.stmt t) (.stmt u) := by
  simp only [←part_stmt_stmt_iff]
  constructor
  case mp =>
    intro h
    obtain h | ⟨n, hn, hp⟩ := within_iff.mp h
    case inl => exact .inl <| by simpa using h
    case inr =>
      obtain ⟨u, rfl⟩ := hn.stmt
      exact .inr ⟨u, hp, hn⟩
  case mpr =>
    rintro (rfl | ⟨u, hu, ht⟩)
    · exact .refl
    · exact .tail ht hu

-- The statements of a tree in the order in which they begin in the source.

mutual

def Stmt.sequence : Stmt → List Stmt
  | s@(.functionDef _ _ _ _ _ _ block) | s@(.classDef _ _ _ _ _ block) | s@(.with _ _ _ block) =>
    s :: Block.sequence block
  | s@(.for _ _ _ _ block other) | s@(.while _ _ block other) | s@(.if _ _ block other) =>
    s :: (Block.sequence block ++ Block.sequence other)
  | s@(.try _ _ block handlers other final) =>
    s :: (Block.sequence block ++ Handler.sequence handlers ++ Block.sequence other ++
      Block.sequence final)
  | s@(.match _ _ cases) => s :: MatchCase.sequence cases
  | s => [s]

def Block.sequence : List Stmt → List Stmt
  | []      => []
  | s :: ss => s.sequence ++ Block.sequence ss

def Handler.sequence : List (Handler Stmt) → List Stmt
  | []                    => []
  | ⟨_, _, _, block⟩ :: hs => Block.sequence block ++ Handler.sequence hs

def MatchCase.sequence : List (MatchCase Stmt) → List Stmt
  | []                    => []
  | ⟨_, _, _, block⟩ :: cs => Block.sequence block ++ MatchCase.sequence cs

end

def Module.sequence (m : Module) : List Stmt :=
  Block.sequence m.body

theorem Block.sequence_eq (ss : List Stmt) : sequence ss = ss.flatMap Stmt.sequence := by
  induction ss <;> simp_all [sequence]

theorem Handler.sequence_eq (hs : List (Handler Stmt)) :
    sequence hs = (hs.map body).flatten.flatMap Stmt.sequence := by
  induction hs <;> simp_all [sequence, Block.sequence_eq]

theorem MatchCase.sequence_eq (cs : List (MatchCase Stmt)) :
    sequence cs = (cs.map body).flatten.flatMap Stmt.sequence := by
  induction cs <;> simp_all [sequence, Block.sequence_eq]

theorem Stmt.sequence_eq (s : Stmt) : s.sequence = s :: s.children.flatMap sequence := by
  cases s
  all_goals
    simp [sequence, children, blocks, Block.sequence_eq, Handler.sequence_eq, MatchCase.sequence_eq]

theorem Stmt.mem_sequence_iff (s : Stmt) : t ∈ s.sequence ↔ Within (.stmt t) (.stmt s) := by
  have hc : ∀ u ∈ s.children, t ∈ u.sequence ↔ Within (.stmt t) (.stmt u) := by
    intro u hu
    have := sizeOf_lt_of_mem_children hu
    exact mem_sequence_iff u
  rw [sequence_eq, within_stmt_stmt_iff]
  grind
termination_by sizeOf s

theorem Module.mem_sequence_iff {m : Module} : s ∈ m.sequence ↔ m.Occurs (.stmt s) := by
  simp [sequence, Block.sequence_eq, Stmt.mem_sequence_iff, Occurs]

end PyVerify
