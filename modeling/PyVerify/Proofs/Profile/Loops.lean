import Mathlib.Order.Bounds.Defs
import PyVerify.Proofs.Profile.Exact

namespace PyVerify

-- A way down a tree, from a statement to one that stands in it, with all statements that are passed.
inductive Way : Stmt → List Stmt → Stmt → Prop
  | here : Way s [s] s
  | down (h : Part (.stmt t) (.stmt s)) (w : Way t path u) : Way s (s :: path) u

-- The loops on ways down to a loop, this loop included.
def Module.LoopWay (m : Module) (n : Nat) : Prop :=
  ∃ s ∈ m.body, ∃ path t, Way s path t ∧ t.isLoop ∧ n = path.countP Stmt.isLoop

-- The loops in and around each loop of a statement in `depth` loops.
def Stmt.loopDepths (depth : Nat) (s : Stmt) : List Nat :=
  (s.features depth).filterMap Feature.loopDepth?

-- A walk that goes over the statements one by one and counts by hand: it has a counter for all loops, one for those
-- that are open, and the greatest value so far of each.
structure LoopWalk where
  hasLoops    : Bool
  entered     : Nat
  nesting     : Nat
  maxEntered  : Nat
  maxNesting  : Nat

variable {w : LoopWalk} {ds es : List Nat} {m : Module} {s t : Stmt} {path : List Stmt} {n : Nat}

namespace LoopWalk

def start : LoopWalk := ⟨false, 0, 0, 0, 0⟩

def enter (w : LoopWalk) : LoopWalk where
  hasLoops    := true
  entered     := w.entered + 1
  nesting     := w.nesting + 1
  maxEntered  := max w.maxEntered (w.entered + 1)
  maxNesting  := max w.maxNesting (w.nesting + 1)

-- No loop can be left if none is open.
def leave? (w : LoopWalk) : Option LoopWalk :=
  if w.nesting = 0 then none else some { w with nesting := w.nesting - 1 }

mutual

def visit? (w : LoopWalk) : Stmt → Option LoopWalk
  | .for _ _ _ _ block other | .while _ _ block other => do
    let w ← w.enter.visitBlock? block
    let w ← w.visitBlock? other
    w.leave?
  | .functionDef _ _ _ _ _ _ block | .classDef _ _ _ _ _ block | .with _ _ _ block => w.visitBlock? block
  | .if _ _ block other => do
    let w ← w.visitBlock? block
    w.visitBlock? other
  | .try _ _ block handlers other final => do
    let w ← w.visitBlock? block
    let w ← w.visitHandlers? handlers
    let w ← w.visitBlock? other
    w.visitBlock? final
  | .match _ _ cases => w.visitCases? cases
  | _ => some w

def visitBlock? (w : LoopWalk) : List Stmt → Option LoopWalk
  | []      => some w
  | s :: ss => do
    let w ← w.visit? s
    w.visitBlock? ss

def visitHandlers? (w : LoopWalk) : List (Handler Stmt) → Option LoopWalk
  | []                      => some w
  | ⟨_, _, _, block⟩ :: hs  => do
    let w ← w.visitBlock? block
    w.visitHandlers? hs

def visitCases? (w : LoopWalk) : List (MatchCase Stmt) → Option LoopWalk
  | []                      => some w
  | ⟨_, _, _, block⟩ :: cs  => do
    let w ← w.visitBlock? block
    w.visitCases? cs

end

theorem visitBlock?_eq (w : LoopWalk) (ss : List Stmt) : w.visitBlock? ss = ss.foldlM visit? w := by
  induction ss generalizing w
  case nil => rfl
  case cons s ss hi => simp only [visitBlock?, hi, List.foldlM_cons]

theorem visitHandlers?_eq (w : LoopWalk) (hs : List (Handler Stmt)) :
    w.visitHandlers? hs = (hs.map Handler.body).flatten.foldlM visit? w := by
  induction hs generalizing w
  case nil => rfl
  case cons h hs hi => simp [visitHandlers?, visitBlock?_eq, hi]

theorem visitCases?_eq (w : LoopWalk) (cs : List (MatchCase Stmt)) :
    w.visitCases? cs = (cs.map MatchCase.body).flatten.foldlM visit? w := by
  induction cs generalizing w
  case nil => rfl
  case cons c cs hi => simp [visitCases?, visitBlock?_eq, hi]

-- A loop is entered in front of the statements in it and left behind them.
theorem visit?_eq (w : LoopWalk) (s : Stmt) : w.visit? s =
    if s.isLoop then s.children.foldlM visit? w.enter >>= leave? else s.children.foldlM visit? w := by
  cases s <;> simp [visit?, visitBlock?_eq, visitHandlers?_eq, visitCases?_eq, Stmt.isLoop, Stmt.children, Stmt.blocks, Option.bind_assoc]

-- The walk behind loops at these depths.
def behind (w : LoopWalk) (ds : List Nat) : LoopWalk where
  hasLoops    := w.hasLoops || !ds.isEmpty
  entered     := w.entered + ds.length
  nesting     := w.nesting
  maxEntered  := w.maxEntered + ds.length
  maxNesting  := ds.foldl max w.maxNesting

theorem behind_nil : w.behind [] = w := by
  simp [behind]

theorem behind_behind : (w.behind ds).behind es = w.behind (ds ++ es) := by
  cases ds <;> simp [behind]
  omega

-- The greatest number of loops so far is the number of loops so far.
theorem leave?_behind_enter (h : w.maxEntered = w.entered) : (w.enter.behind ds).leave? = some (w.behind ((w.nesting + 1) :: ds)) := by
  simp [leave?, behind, enter, h]
  grind

end LoopWalk

namespace Stmt

theorem loopDepths_ownFeatures (k : Nat) (s : Stmt) :
    (s.ownFeatures k).filterMap Feature.loopDepth? = if s.isLoop then [k + 1] else [] := by
  fun_cases ownFeatures k s <;> simp_all [Feature.loopDepth?, isLoop]

theorem loopDepths_eq (k : Nat) (s : Stmt) : s.loopDepths k =
    if s.isLoop then (k + 1) :: s.children.flatMap (loopDepths (k + 1)) else s.children.flatMap (loopDepths k) := by
  have he : s.exprs.flatMap (fun e => e.features.filterMap Feature.loopDepth?) = [] := by
    simp only [List.flatMap_eq_nil_iff, List.filterMap_eq_nil_iff, Expr.mem_features_iff]
    rintro e - f ⟨x, -, hf⟩
    obtain ⟨op, rfl⟩ | rfl | rfl := Expr.ownFeatures_cases hf <;> rfl
  rw [loopDepths, features]
  simp only [List.filterMap_append, List.filterMap_flatMap, loopDepths_ownFeatures, he, List.flatMap_subtype, List.unattach_attach]
  split <;> rfl

end Stmt

namespace LoopWalk

-- What the walk over each statement of a block does, the walk over the block does.
theorem foldlM_visit? {ss : List Stmt} (h : w.maxEntered = w.entered)
    (hs : ∀ s ∈ ss, ∀ v : LoopWalk, v.maxEntered = v.entered → v.visit? s = some (v.behind (s.loopDepths v.nesting))) :
    ss.foldlM visit? w = some (w.behind (ss.flatMap (Stmt.loopDepths w.nesting))) := by
  induction ss generalizing w
  case nil => rw [List.flatMap_nil, behind_nil]; rfl
  case cons s ss hi =>
    rw [List.foldlM_cons, hs s (.head _) w h, List.flatMap_cons, ← behind_behind]
    exact hi (congrArg (· + _) h) fun t ht => hs t (.tail _ ht)

-- A statement is walked over without a loop left that is not open, and behind it as many are open as before.
theorem visit?_eq_behind (w : LoopWalk) (s : Stmt) (h : w.maxEntered = w.entered) : w.visit? s = some (w.behind (s.loopDepths w.nesting)) := by
  have hc : ∀ t ∈ s.children, ∀ v : LoopWalk, v.maxEntered = v.entered → v.visit? t = some (v.behind (t.loopDepths v.nesting)) := by
    intro t ht v hv
    have := Stmt.sizeOf_lt_of_mem_children ht
    exact visit?_eq_behind v t hv
  rw [visit?_eq, Stmt.loopDepths_eq]
  split
  case isFalse => exact foldlM_visit? h hc
  case isTrue =>
    have he : w.enter.maxEntered = w.enter.entered := by simp [enter, h]
    rw [foldlM_visit? he hc]
    exact leave?_behind_enter h
termination_by sizeOf s

theorem visitBlock?_start (ss : List Stmt) :
    start.visitBlock? ss = some (start.behind (ss.flatMap (Stmt.loopDepths 0))) := by
  rw [visitBlock?_eq]
  exact foldlM_visit? rfl fun s _ w => w.visit?_eq_behind s

end LoopWalk

namespace Way

theorem iff_cons : Way s path t ↔ path = [s] ∧ t = s ∨ ∃ c ∈ s.children, ∃ rest, path = s :: rest ∧ Way c rest t := by
  constructor
  case mp =>
    intro w
    cases w
    case here     => exact .inl ⟨rfl, rfl⟩
    case down h w => exact .inr ⟨_, part_stmt_stmt_iff.mp h, _, rfl, w⟩
  case mpr =>
    rintro (⟨rfl, rfl⟩ | ⟨c, hc, rest, rfl, w⟩)
    · exact .here
    · exact .down (part_stmt_stmt_iff.mpr hc) w

theorem mem (w : Way s path t) : t ∈ path := by
  induction w
  case here       => exact .head _
  case down hi    => exact .tail _ hi

-- The statements on a way stand in the tree one behind the other.
theorem sublist (w : Way s path t) : path.Sublist s.sequence := by
  induction w
  case here s =>
    rw [Stmt.sequence_eq]
    exact (List.nil_sublist _).cons_cons s
  case down h w hi =>
    rw [Stmt.sequence_eq, List.flatMap_def]
    exact (hi.trans <| List.sublist_flatten_of_mem <| List.mem_map_of_mem <| part_stmt_stmt_iff.mp h).cons_cons _

end Way

-- The depth of a loop is the number of loops on the way to it.
theorem Stmt.mem_loopDepths_iff (s : Stmt) (k : Nat) :
    n ∈ s.loopDepths k ↔ ∃ path t, Way s path t ∧ t.isLoop ∧ n = k + path.countP isLoop := by
  let below := if s.isLoop then k + 1 else k
  have hb (path : List Stmt) : k + (s :: path).countP isLoop = below + path.countP isLoop := by
    rw [List.countP_cons]
    by_cases h : s.isLoop <;> simp [below, h]
    omega
  have hc : ∀ c ∈ s.children, n ∈ c.loopDepths below ↔ ∃ path t, Way c path t ∧ t.isLoop ∧ n = below + path.countP isLoop := by
    intro c hc
    have := sizeOf_lt_of_mem_children hc
    exact mem_loopDepths_iff c below
  have hd : n ∈ s.loopDepths k ↔ s.isLoop ∧ n = k + 1 ∨ ∃ c ∈ s.children, n ∈ c.loopDepths below := by
    rw [loopDepths_eq]
    split <;> simp [below, *]
  rw [hd]
  constructor
  case mp =>
    rintro (⟨hl, rfl⟩ | ⟨c, h, hn⟩)
    case inl => exact ⟨[s], s, .here, hl, by simp [hl]⟩
    case inr =>
      obtain ⟨path, t, w, ht, rfl⟩ := (hc c h).mp hn
      exact ⟨s :: path, t, .down (part_stmt_stmt_iff.mpr h) w, ht, (hb path).symm⟩
  case mpr =>
    rintro ⟨path, t, w, ht, rfl⟩
    obtain ⟨rfl, rfl⟩ | ⟨c, h, rest, rfl, hw⟩ := Way.iff_cons.mp w
    case inl => exact .inl ⟨ht, by simp [ht]⟩
    case inr => exact .inr ⟨c, h, (hc c h).mpr ⟨rest, t, hw, ht, hb rest⟩⟩
termination_by sizeOf s

-- All depths of the loops of a program.
def Module.loopDepths (m : Module) : List Nat :=
  m.body.flatMap (Stmt.loopDepths 0)

namespace Module

theorem loopDepths_eq (m : Module) : m.features.filterMap Feature.loopDepth? = m.loopDepths := by
  rw [features, List.filterMap_flatMap]
  rfl

theorem mem_loopDepths_iff : n ∈ m.loopDepths ↔ m.LoopWay n := by
  simp only [loopDepths, List.mem_flatMap, Stmt.mem_loopDepths_iff, Nat.zero_add, LoopWay]

-- Each loop has one depth, whatever it is.
theorem length_loopDepths : m.loopDepths.length = m.sequence.countP Stmt.isLoop := by
  let mark (f : Feature) : Option Unit := f.loopDepth?.map fun _ => ()
  let own (s : Stmt) : Option Unit := if s.isLoop then some () else none
  have hx (x : Expr) : x.ownFeatures.filterMap mark = [] := by
    rw [List.filterMap_eq_nil_iff]
    intro f hf
    obtain ⟨op, rfl⟩ | rfl | rfl := Expr.ownFeatures_cases hf <;> rfl
  have ht (t : Stmt) (k : Nat) : (t.ownFeatures k).filterMap mark = (own t).toList := by
    fun_cases Stmt.ownFeatures k t <;> simp_all [mark, own, Feature.loopDepth?, Stmt.isLoop]
  have hf : (fun f => (mark f).isSome) = fun f => f.loopDepth?.isSome := by simp [mark]
  have ho : (fun s => (own s).isSome) = Stmt.isLoop := by
    funext s
    cases h : s.isLoop <;> simp [own, h]
  rw [← loopDepths_eq, List.length_filterMap_eq_countP, ← hf, ← List.length_filterMap_eq_countP, filterMap_features hx ht,
    List.length_filterMap_eq_countP, ho]

theorem LoopWay.pos (h : m.LoopWay n) : 0 < n := by
  obtain ⟨s, -, path, t, w, ht, rfl⟩ := h
  exact List.countP_pos_iff.mpr ⟨t, w.mem, ht⟩

theorem LoopWay.le (h : m.LoopWay n) : n ≤ m.sequence.countP Stmt.isLoop := by
  obtain ⟨s, hs, path, t, w, -, rfl⟩ := h
  rw [sequence, Block.sequence_eq, List.flatMap_def]
  exact (w.sublist.trans <| List.sublist_flatten_of_mem <| List.mem_map_of_mem hs).countP_le

end Module

-- The numbers of loops in a profile.
structure Profile.LoopsCounted (m : Module) (p : Profile) : Prop where
  count         : p.loopCount = m.sequence.countP Stmt.isLoop
  nesting       : p.hasLoops → IsGreatest {n | m.LoopWay n} p.loopNesting
  count_zero    : p.loopCount = 0 ↔ p.hasLoops = false
  nesting_zero  : p.loopNesting = 0 ↔ p.hasLoops = false
  nesting_le    : p.loopNesting ≤ p.loopCount
  walk          : ∃ w, LoopWalk.start.visitBlock? m.body = some w ∧ w.nesting = 0 ∧ w.hasLoops = p.hasLoops ∧
                    w.maxEntered = p.loopCount ∧ w.maxNesting = p.loopNesting

theorem isGreatest_foldl_max (h : ds ≠ []) : IsGreatest {d | d ∈ ds} (ds.foldl max 0) := by
  obtain ⟨d, ds, rfl⟩ := List.exists_cons_of_ne_nil h
  rw [List.foldl_cons, Nat.zero_max]
  exact List.max?_eq_some_iff.mp List.max?_cons'

theorem Profile.ofModule_loopsCounted (m : Module) : (ofModule m).LoopsCounted m := by
  have hl : (ofModule m).hasLoops = !m.loopDepths.isEmpty := by rw [← m.loopDepths_eq]; rfl
  have hc : (ofModule m).loopCount = m.loopDepths.length := by rw [← m.loopDepths_eq]; rfl
  have hn : (ofModule m).loopNesting = m.loopDepths.foldl max 0 := by rw [← m.loopDepths_eq]; rfl
  have hw : LoopWalk.start.visitBlock? m.body = some (LoopWalk.start.behind m.loopDepths) := LoopWalk.visitBlock?_start m.body
  have hg (h : m.loopDepths ≠ []) : IsGreatest {n | m.LoopWay n} (ofModule m).loopNesting := by
    simp only [← Module.mem_loopDepths_iff, hn]
    exact isGreatest_foldl_max h
  -- Without loops there is nothing to count, and else the greatest number of loops on a way is one of those counted.
  have hz : m.loopDepths = [] ∧ (ofModule m).loopNesting = 0 ∨
      m.loopDepths ≠ [] ∧ 0 < (ofModule m).loopNesting ∧ (ofModule m).loopNesting ≤ (ofModule m).loopCount := by
    by_cases h : m.loopDepths = []
    case pos => exact .inl ⟨h, by rw [hn, h]; rfl⟩
    case neg =>
      have hm := (hg h).left
      exact .inr ⟨h, hm.pos, hc ▸ Module.length_loopDepths ▸ hm.le⟩
  constructor
  case count        => rw [hc, Module.length_loopDepths]
  case nesting      => exact fun h => hg <| by simpa [hl] using h
  case count_zero   => simp [hl, hc]
  case nesting_zero =>
    obtain ⟨h, hn⟩ | ⟨h, hp, -⟩ := hz
    case inl => simp [hl, h, hn]
    case inr => simp [hl, h, Nat.ne_of_gt hp]
  case nesting_le   => obtain ⟨-, hn⟩ | ⟨-, -, hn⟩ := hz <;> omega
  case walk         => exact ⟨_, hw, rfl, by simp [hl, LoopWalk.behind, LoopWalk.start], by simp [hc, LoopWalk.behind, LoopWalk.start], hn.symm⟩

end PyVerify
