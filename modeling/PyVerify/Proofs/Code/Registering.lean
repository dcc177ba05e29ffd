import PyVerify.Proofs.Code.Emission
import PyVerify.Proofs.Profile.Distinct

namespace PyVerify.Code

namespace Notes

-- The lists of a program, with what a further piece of it calls for at their ends. Nothing is listed twice.
def add (lists notes : Notes) : Notes :=
  ⟨addDistinct lists.checks notes.checks, addDistinct lists.primitives notes.primitives⟩

-- The lists have only grown.
structure Starts (lists after : Notes) : Prop where
  checks      : lists.checks <+: after.checks
  primitives  : lists.primitives <+: after.primitives

variable {k l m n : Notes}

@[simp] theorem add_none : l.add none = l := rfl

theorem add_add : (l.add m).add n = l.add (m ++ n) := by
  show _ = add l (append m n)
  simp [add, append, addDistinct_append]

theorem eq_none_of_append (h : m ++ n = none) : m = none := by
  have hc : m.checks ++ n.checks = [] := congrArg checks h
  have hp : m.primitives ++ n.primitives = [] := congrArg primitives h
  cases m
  simp_all [none]

theorem starts_add : l.Starts (l.add n) :=
  ⟨prefix_addDistinct, prefix_addDistinct⟩

theorem Starts.refl : l.Starts l :=
  ⟨List.prefix_rfl, List.prefix_rfl⟩

theorem Starts.trans (h : k.Starts l) (h' : l.Starts m) : k.Starts m :=
  ⟨h.checks.trans h'.checks, h.primitives.trans h'.primitives⟩

end Notes

-- A computation that notes what it calls for in the lists of the program while it goes on, and so before it is known
-- whether it succeeds.
def Registering (α : Type) := Notes → Except Unsupported α × Notes

namespace Registering

variable {α β : Type}

def fail (cause : Unsupported) : Registering α := fun lists => (.error cause, lists)

def register (notes : Notes) : Registering Unit := fun lists => (.ok (), lists.add notes)

instance : Monad Registering where
  pure a := fun lists => (.ok a, lists)
  bind x f := fun lists =>
    match x lists with
    | (.ok a, after)        => f a after
    | (.error cause, after) => (.error cause, after)

-- After a failure the lists are cut to the lengths that they had before.
def attempt (x : Registering α) : Registering α := fun lists =>
  match x lists with
  | (.ok a, after)        => (.ok a, after)
  | (.error cause, after) =>
    (.error cause, ⟨after.checks.take lists.checks.length, after.primitives.take lists.primitives.length⟩)

-- A step that cannot fail any more once it has noted something.
def ofLowering : Lowering α → Registering α
  | Except.ok (a, notes)  => do
    register notes
    return a
  | Except.error cause    => fail cause

def operand (e : PyVerify.Expr) (x : Registering Term) : Registering Term :=
  attempt do return grouped e (← x)

def alone (e : PyVerify.Expr) (x : Registering Term) : Registering Term :=
  attempt do return bare e (← x)

-- The term of an expression, where the parts of a binary operation, each operand and each argument are attempts of
-- their own.

mutual

def node (v : Verifier) : PyVerify.Expr → Registering Term
  | .name _ ident => pure (.ident (identifier ident))
  | .constant _ value => ofLowering (constantTerm "constant" value)
  | .binary _ left op right =>
    match infixOp? op with
    | none => fail (.operator op.symbol)
    | some sign => attempt do
      register ⟨checksOf op, []⟩
      let l ← operand left (node v left)
      let r ← operand right (node v right)
      return .infix2 l sign r
  | .unary _ op e => do
    return signTerm op (← operand e (node v e))
  | .bool _ op values => do
    return .paren (.joined (boolOp op) ((← operands v values).map .paren))
  | .compare _ left links => do
    let l ← operand left (node v left)
    return chain l (← linkOperands v links)
  | .call _ func args keywords =>
    if keywords.isEmpty then do
      let terms ← arguments v args
      ofLowering (lowerCall v func terms)
    else fail .keywordArguments
  | .attr _ e attr =>
    if v.isReceiver e then fail (.verifierAttribute attr.text)
    else do
      register ⟨[.pointer], []⟩
      return .member (← operand e (node v e)) attr.text
  | .subscript _ e index =>
    if isSliceOrTuple index then fail (.kind index.describe)
    else do
      register ⟨[.bounds], []⟩
      let base ← operand e (node v e)
      return .index base (← operand index (node v index))
  | .conditional _ test body orelse => do
    let t ← operand test (node v test)
    let b ← operand body (node v body)
    return .paren (.conditional t b (← operand orelse (node v orelse)))
  | e => fail (.kind e.describe)

def operands (v : Verifier) : List PyVerify.Expr → Registering (List Term)
  | []      => pure []
  | e :: es => do
    let t ← operand e (node v e)
    return t :: (← operands v es)

def arguments (v : Verifier) : List PyVerify.Expr → Registering (List Term)
  | []      => pure []
  | e :: es => do
    let t ← alone e (node v e)
    return t :: (← arguments v es)

def linkOperands (v : Verifier) : List (CompareOp × PyVerify.Expr) → Registering (List (CompareOp × Term))
  | []                => pure []
  | (op, e) :: links  => do
    let t ← operand e (node v e)
    return (op, t) :: (← linkOperands v links)

end

def lower (v : Verifier) (e : PyVerify.Expr) : Registering Term :=
  operand e (node v e)

def lowerBare (v : Verifier) (e : PyVerify.Expr) : Registering Term :=
  alone e (node v e)

end Registering

-- What a computation gives, and the lists behind it. A failure leaves them as they were.
def Lowering.outcome {α : Type} (y : Lowering α) (lists : Notes) : Except Unsupported α × Notes :=
  match y with
  | Except.ok (a, notes)  => (.ok a, lists.add notes)
  | Except.error cause    => (.error cause, lists)

namespace Registering

open Lowering (outcome)

variable {α β : Type} {x : Registering α} {y : Lowering α} {f : α → Registering β} {g : α → Lowering β}

def Mirrors (x : Registering α) (y : Lowering α) : Prop :=
  ∀ lists, x lists = y.outcome lists

-- A failure in the middle may have put something behind the lists.
inductive Trails (x : Registering α) (lists : Notes) : Lowering α → Prop
  | ok (h : x lists = (.ok a, lists.add n)) : Trails x lists (Except.ok (a, n))
  | error (h : x lists = (.error cause, after)) (hs : lists.Starts after) : Trails x lists (Except.error cause)

abbrev Follows (x : Registering α) (y : Lowering α) : Prop :=
  ∀ lists, Trails x lists y

variable {a : α} {cause : Unsupported} {lists : Notes}

theorem Mirrors.follows (h : Mirrors x y) : Follows x y := by
  intro lists
  have h := h lists
  cases y
  case error  => exact .error h .refl
  case ok     => exact .ok h

-- What stood in the lists stands at their beginning still, and so it is what is left when they are cut.
theorem Follows.attempt (h : Follows x y) : Mirrors (attempt x) y := by
  intro lists
  unfold Registering.attempt outcome
  cases h lists
  case ok hx        => simp only [hx]
  case error hx hs  =>
    have hc := List.prefix_iff_eq_take.mp hs.checks
    have hp := List.prefix_iff_eq_take.mp hs.primitives
    simp only [hx, ← hc, ← hp]

theorem mirrors_pure : Mirrors (pure a) (pure a) :=
  fun _ => rfl

theorem mirrors_fail : Mirrors (fail cause : Registering α) (Lowering.fail cause) :=
  fun _ => rfl

theorem mirrors_register {notes : Notes} : Mirrors (register notes) (Lowering.note notes) :=
  fun _ => rfl

theorem mirrors_ofLowering : Mirrors (ofLowering y) y := by
  intro lists
  cases y <;> rfl

theorem Follows.bind (h : Follows x y) (hf : ∀ a, Follows (f a) (g a)) : Follows (x >>= f) (y >>= g) := by
  intro lists
  cases h lists
  case error hx hs => exact .error (by simp only [Bind.bind, hx]) hs
  case ok m a hx =>
    have hx : (x >>= f) lists = f a (lists.add m) := by simp only [Bind.bind, hx]
    have hf := hf a (lists.add m)
    generalize hg : g a = z at hf
    cases hf
    case ok hf        =>
      rw [Lowering.bind_ok rfl hg]
      exact .ok (by rw [hx, hf, Notes.add_add])
    case error hf hs  =>
      rw [Lowering.bind_error rfl hg]
      exact .error (by rw [hx, hf]) (Notes.starts_add.trans hs)

-- An operand or an argument that fails is undone by itself.
theorem Follows.operand {x : Registering Term} {y : Lowering Term} {e : PyVerify.Expr} (h : Follows x y) :
    Mirrors (operand e x) (do return grouped e (← y)) :=
  Follows.attempt <| h.bind fun _ => mirrors_pure.follows

theorem Follows.alone {x : Registering Term} {y : Lowering Term} {e : PyVerify.Expr} (h : Follows x y) :
    Mirrors (alone e x) (do return bare e (← y)) :=
  Follows.attempt <| h.bind fun _ => mirrors_pure.follows

variable {v : Verifier} {s : Span} {e : PyVerify.Expr}

-- The term of an expression is put together from those of its parts with their parentheses.

theorem parts_mirror {left right : PyVerify.Expr} {op : BinaryOp} (hl : Follows (node v left) (lowerOpen v left))
    (hr : Follows (node v right) (lowerOpen v right)) :
    Mirrors (node v (.binary s left op right)) (lowerOpen v (.binary s left op right)) := by
  cases ho : infixOp? op
  case none =>
    simp only [node, lowerOpen, ho]
    exact mirrors_fail
  case some sign =>
    have hs : lowerOpen v (.binary s left op right) = do
        Lowering.note ⟨checksOf op, []⟩
        let l ← Code.lower v left
        let r ← Code.lower v right
        return .infix2 l sign r := by
      simp [lowerOpen, ho, Code.lower]
    rw [hs]
    simp only [node, ho]
    refine Follows.attempt <| mirrors_register.follows.bind fun _ => hl.operand.follows.bind fun _ => ?_
    exact hr.operand.follows.bind fun _ => mirrors_pure.follows

mutual

theorem node_follows (v : Verifier) : (e : PyVerify.Expr) → Follows (node v e) (lowerOpen v e)
  | .name .. => mirrors_pure.follows
  | .constant .. => mirrors_ofLowering.follows
  | .binary _ left _ right => (parts_mirror (node_follows v left) (node_follows v right)).follows
  | .unary s op operand => by
    have hl : lowerOpen v (.unary s op operand) = do return signTerm op (← Code.lower v operand) := by
      simp [lowerOpen, Code.lower]
    rw [hl]
    exact (node_follows v operand).operand.follows.bind fun _ => mirrors_pure.follows
  | .bool _ _ values =>
    (operands_follow v values).bind fun _ => mirrors_pure.follows
  | .compare s left links => by
    have hl : lowerOpen v (.compare s left links) = do
        let l ← Code.lower v left
        return chain l (← lowerLinks v links) := by
      simp [lowerOpen, Code.lower]
    rw [hl]
    refine (node_follows v left).operand.follows.bind fun _ => ?_
    exact (linkOperands_follow v links).bind fun _ => mirrors_pure.follows
  | .call _ func args keywords => by
    simp only [node, lowerOpen]
    split
    case isTrue   => exact (arguments_follow v args).bind fun _ => mirrors_ofLowering.follows
    case isFalse  => exact mirrors_fail.follows
  | .attr s e attr => by
    by_cases hr : v.isReceiver e
    case pos =>
      simp only [node, lowerOpen, hr]
      exact mirrors_fail.follows
    case neg =>
      have hl : lowerOpen v (.attr s e attr) = do
          Lowering.note ⟨[.pointer], []⟩
          return .member (← Code.lower v e) attr.text := by
        simp [lowerOpen, hr, Code.lower, Lowering.check]
      rw [hl]
      simp only [node, hr]
      refine mirrors_register.follows.bind fun _ => ?_
      exact (node_follows v e).operand.follows.bind fun _ => mirrors_pure.follows
  | .subscript s e index => by
    by_cases hi : isSliceOrTuple index
    case pos =>
      simp only [node, lowerOpen, hi]
      exact mirrors_fail.follows
    case neg =>
      have hl : lowerOpen v (.subscript s e index) = do
          Lowering.note ⟨[.bounds], []⟩
          let base ← Code.lower v e
          return .index base (← Code.lower v index) := by
        simp [lowerOpen, hi, Code.lower, Lowering.check]
      rw [hl]
      simp only [node, hi]
      refine mirrors_register.follows.bind fun _ => (node_follows v e).operand.follows.bind fun _ => ?_
      exact (node_follows v index).operand.follows.bind fun _ => mirrors_pure.follows
  | .conditional s test body orelse => by
    have hl : lowerOpen v (.conditional s test body orelse) = do
        let t ← Code.lower v test
        let b ← Code.lower v body
        return .paren (.conditional t b (← Code.lower v orelse)) := by
      simp [lowerOpen, Code.lower]
    rw [hl]
    refine (node_follows v test).operand.follows.bind fun _ => (node_follows v body).operand.follows.bind fun _ => ?_
    exact (node_follows v orelse).operand.follows.bind fun _ => mirrors_pure.follows
  | .slice .. | .starred .. | .tuple .. | .list .. | .set .. | .dict .. | .lambda .. | .listComp ..
  | .setComp .. | .dictComp .. | .generator .. | .named .. | .await .. | .yield .. | .yieldFrom .. =>
    mirrors_fail.follows

theorem operands_follow (v : Verifier) : (es : List PyVerify.Expr) → Follows (operands v es) (lowerOperands v es)
  | [] => mirrors_pure.follows
  | e :: es => by
    have hl : lowerOperands v (e :: es) = do
        let t ← Code.lower v e
        return t :: (← lowerOperands v es) := by
      simp [lowerOperands, Code.lower]
    rw [hl]
    refine (node_follows v e).operand.follows.bind fun _ => ?_
    exact (operands_follow v es).bind fun _ => mirrors_pure.follows

theorem arguments_follow (v : Verifier) : (es : List PyVerify.Expr) → Follows (arguments v es) (lowerArgs v es)
  | [] => mirrors_pure.follows
  | e :: es => by
    have hl : lowerArgs v (e :: es) = do
        let t ← Code.lowerBare v e
        return t :: (← lowerArgs v es) := by
      simp [lowerArgs, Code.lowerBare]
    rw [hl]
    refine (node_follows v e).alone.follows.bind fun _ => ?_
    exact (arguments_follow v es).bind fun _ => mirrors_pure.follows

theorem linkOperands_follow (v : Verifier) : (links : List (CompareOp × PyVerify.Expr)) →
    Follows (linkOperands v links) (lowerLinks v links)
  | [] => mirrors_pure.follows
  | (op, e) :: links => by
    have hl : lowerLinks v ((op, e) :: links) = do
        let t ← Code.lower v e
        return (op, t) :: (← lowerLinks v links) := by
      simp [lowerLinks, Code.lower]
    rw [hl]
    refine (node_follows v e).operand.follows.bind fun _ => ?_
    exact (linkOperands_follow v links).bind fun _ => mirrors_pure.follows

end

theorem lower_mirrors : Mirrors (lower v e) (Code.lower v e) :=
  (node_follows v e).operand

theorem lowerBare_mirrors : Mirrors (lowerBare v e) (Code.lowerBare v e) :=
  (node_follows v e).alone

-- What a target other than a name is written as.
def target (v : Verifier) : PyVerify.Expr → Registering (Option Term)
  | .name ..  => pure none
  | e         => some <$> lower v e

-- What a statement has to find terms for before any code of it is written, all of them or none.

def assigned (v : Verifier) (targets : List PyVerify.Expr) (e : PyVerify.Expr) :
    Registering (Term × List (Option Term)) :=
  attempt do
    let t ← lowerBare v e
    return (t, ← targets.mapM (target v))

def annotated (v : Verifier) (place e : PyVerify.Expr) : Registering (Term × Option Term) :=
  attempt do
    let t ← lowerBare v e
    return (t, ← target v place)

def augmented (v : Verifier) (place : PyVerify.Expr) (op : BinaryOp) (e : PyVerify.Expr) : Registering (Term × Term) :=
  attempt do
    register ⟨checksOf op, []⟩
    let t ← lower v place
    return (t, ← lower v e)

def bounds (v : Verifier) (args : List PyVerify.Expr) : Registering (List Term) :=
  attempt <| args.mapM (lower v)

def returned (v : Verifier) : PyVerify.Expr → Registering Term
  | e@(.binary ..)  => node v e
  | e               => lowerBare v e

-- The lists behind this.
def registered (v : Verifier) (lists : Notes) : PyVerify.Stmt → Notes
  | .assign _ targets e => if targets.any isUnpacking then lists else (assigned v targets e lists).snd
  | .annAssign _ place _ (some e) => (annotated v place e lists).snd
  | .augAssign _ place op e => if (infixOp? op).isSome then (augmented v place op e lists).snd else lists
  | .expr _ (.constant _ (.str _)) | .expr _ (.call _ (.name _ "print") _ _) => lists
  | .expr _ e => (lower v e lists).snd
  | .assert _ test _ => (lowerBare v test lists).snd
  | .return _ (some e) => (returned v e lists).snd
  | .for _ _ (.name ..) iter _ _ =>
    match rangeArgs? iter with
    | some args => (bounds v args lists).snd
    | none      => lists
  | _ => lists

protected theorem id_map (x : Registering α) : id <$> x = x := by
  funext lists
  show (match x lists with | (.ok a, after) => _ | (.error cause, after) => _) = x lists
  split <;> rename_i h <;> exact h.symm

protected theorem bind_assoc {γ : Type} (x : Registering α) (f : α → Registering β) (g : β → Registering γ) :
    x >>= f >>= g = x >>= fun a => f a >>= g := by
  funext lists
  simp only [Bind.bind]
  obtain ⟨_ | _, _⟩ := x lists <;> rfl

instance : LawfulMonad Registering :=
  .mk' Registering Registering.id_map (fun _ _ => rfl) Registering.bind_assoc

theorem Mirrors.map {f : α → β} (h : Mirrors x y) : Mirrors (f <$> x) (f <$> y) := by
  intro lists
  have hx : (f <$> x) lists = match x lists with
      | (.ok a, after)        => (.ok (f a), after)
      | (.error cause, after) => (.error cause, after) := rfl
  rw [hx, h lists, map_eq_pure_bind]
  cases hy : y
  case error  => rfl
  case ok r   => rw [Lowering.bind_pure_ok (a := r.fst) (n := r.snd) rfl]; rfl

theorem target_mirrors : Mirrors (target v e) (lowerTarget v e) := by
  cases e
  case name => exact mirrors_pure
  all_goals exact lower_mirrors.map

theorem mapM_follows {xs : List β} {f : β → Registering α} {g : β → Lowering α}
    (h : ∀ b, Mirrors (f b) (g b)) : Follows (xs.mapM f) (xs.mapM g) := by
  induction xs
  case nil => exact mirrors_pure.follows
  case cons x xs hi =>
    rw [List.mapM_cons, List.mapM_cons]
    exact (h x).follows.bind fun _ => hi.bind fun _ => mirrors_pure.follows

end Registering

-- What an attempt calls for in the end.
def Lowering.noted {α : Type} (y : Lowering α) : Notes :=
  match y with
  | Except.ok (_, notes)  => notes
  | Except.error _        => .none

theorem Lowering.noted_bind_pure {α β : Type} {y : Lowering α} {f : α → β} :
    (y >>= fun a => pure (f a)).noted = y.noted := by
  cases y
  case error  => rfl
  case ok r   => rw [bind_pure_ok (a := r.fst) (n := r.snd) rfl]; rfl

namespace Emit

variable {α β : Type} {y : Lowering α} {k : Except Unsupported α → Emit β} {σ : Scope}

-- Nothing but an attempt is noted where all that follows it is the writing of code.
theorem notes_attempt_bind (h : ∀ r τ, (k r τ).notes = .none) : ((attempt y >>= k) σ).notes = y.noted := by
  simp only [bind, h, Notes.append_none]
  unfold attempt
  cases y <;> rfl

theorem notes_declare {ident : String} : (declare ident σ).notes = .none := by
  unfold declare
  split <;> rfl

theorem notes_assignTo {e : PyVerify.Expr} {place : Option Term} {type : CType} {value : Term} :
    (assignTo e place type value σ).notes = .none := by
  unfold assignTo
  split
  case h_1 | h_3 => rfl
  case h_2 id =>
    have hd : (declare id σ).notes = .none := notes_declare
    simp only [bind, hd, Notes.none_append]
    split <;> rfl

theorem notes_assignAll {places : List (PyVerify.Expr × Option Term)} {type : CType} {value : Term} :
    (assignAll type value places σ).notes = .none := by
  induction places generalizing σ
  case nil => rfl
  case cons place places hi =>
    have hf : (assignTo place.fst place.snd type value σ).notes = .none := notes_assignTo
    simp only [assignAll, bind, hf, hi, Notes.none_append]
    rfl

end Emit

namespace Registering

variable {α β : Type} {x : Registering α} {y : Lowering α} {v : Verifier} {s : Span} {e : PyVerify.Expr}
  {lists : Notes} {σ : Scope}

theorem Mirrors.snd (h : Mirrors x y) : (x lists).snd = lists.add y.noted := by
  rw [h lists]
  cases y <;> rfl

theorem registered_assign {targets : List PyVerify.Expr} :
    registered v lists (.assign s targets e) = lists.add (emitAssign v targets e σ).notes := by
  change (if targets.any isUnpacking then lists else (assigned v targets e lists).snd) = _
  simp only [emitAssign]
  split
  case isTrue   => rfl
  case isFalse  =>
    rw [Emit.notes_attempt_bind (by rintro (_ | _) τ; exacts [rfl, Emit.notes_assignAll])]
    refine Mirrors.snd <| Follows.attempt <| lowerBare_mirrors.follows.bind fun _ => ?_
    exact (mapM_follows fun _ => target_mirrors).bind fun _ => mirrors_pure.follows

theorem registered_annAssign {place annotation : PyVerify.Expr} :
    registered v lists (.annAssign s place annotation (some e)) =
      lists.add (emitAnnAssign v place annotation (some e) σ).notes := by
  change (annotated v place e lists).snd = _
  simp only [emitAnnAssign]
  rw [Emit.notes_attempt_bind (by rintro (_ | _) τ; exacts [rfl, Emit.notes_assignTo])]
  refine Mirrors.snd <| Follows.attempt <| lowerBare_mirrors.follows.bind fun _ => ?_
  exact target_mirrors.follows.bind fun _ => mirrors_pure.follows

theorem registered_augAssign {place : PyVerify.Expr} {op : BinaryOp} :
    registered v lists (.augAssign s place op e) = lists.add (emitAugAssign v place op e σ).notes := by
  change (if (infixOp? op).isSome then (augmented v place op e lists).snd else lists) = _
  simp only [emitAugAssign]
  cases infixOp? op
  case none       => rfl
  case some sign  =>
    simp only
    rw [Emit.notes_attempt_bind (by rintro (_ | _) τ <;> rfl)]
    refine Mirrors.snd <| Follows.attempt <| mirrors_register.follows.bind fun _ => ?_
    exact lower_mirrors.follows.bind fun _ => lower_mirrors.follows.bind fun _ => mirrors_pure.follows

theorem registered_assert {message : Option PyVerify.Expr} :
    registered v lists (.assert s e message) = lists.add (emitAssert v e message σ).notes := by
  change (lowerBare v e lists).snd = _
  simp only [emitAssert]
  rw [Emit.notes_attempt_bind (by rintro (_ | _) τ <;> rfl)]
  exact lowerBare_mirrors.snd

theorem registered_expr : registered v lists (.expr s e) = lists.add (emitExpr v e σ).notes := by
  unfold emitExpr
  split
  case h_1 | h_2 => rfl
  case h_3 ht hp =>
    rw [Emit.notes_attempt_bind (by rintro (_ | _) τ <;> rfl)]
    unfold registered
    split
    all_goals simp_all
    exact lower_mirrors.snd

theorem registered_return :
    registered v lists (.return s (some e)) = lists.add (emitReturn v (some e) σ).notes := by
  change (returned v e lists).snd = _
  simp only [emitReturn]
  rw [Emit.notes_attempt_bind (by rintro (_ | _) τ <;> rfl)]
  unfold returned
  split
  case h_1 => exact (parts_mirror (node_follows _ _) (node_follows _ _)).snd
  case h_2 => exact lowerBare_mirrors.snd.trans (by rw [Code.lowerBare, Lowering.noted_bind_pure])

theorem registered_for {isAsync : Bool} {z : Span} {ident : String} {iter : PyVerify.Expr}
    {block other : List PyVerify.Stmt} :
    registered v lists (.for s isAsync (.name z ident) iter block other) =
      lists.add (emitRange v (.name z ident) iter σ).notes := by
  simp only [registered, emitRange]
  cases rangeArgs? iter
  case none       => rfl
  case some args  =>
    simp only
    refine (Mirrors.snd ?_).trans (congrArg lists.add (Emit.notes_attempt_bind ?_).symm)
    · exact Follows.attempt <| mapM_follows fun _ => lower_mirrors
    rintro (_ | terms) τ
    case error => rfl
    case ok =>
      simp only
      cases rangeHeader? (identifier ident) args terms
      case none => rfl
      case some =>
        have hd : (Emit.declare ident τ).notes = .none := Emit.notes_declare
        simp only [bind, hd, Notes.none_append]
        split <;> rfl

-- A comment stands for a statement, or a return without its value.
def Failed (code : List Stmt) : Prop :=
  (∃ what, code = [.placeholder what]) ∨ code = [.returnUnsupported]

theorem unchanged_of_failed {s : PyVerify.Stmt} {code : List Stmt} {n : Notes} {τ : Scope} (h : Emits v s σ code n τ)
    (hf : Failed code) : n = .none ∧ σ = τ := by
  cases h
  case placeholder | returnUnsupported => exact ⟨rfl, rfl⟩
  case assign ha =>
    obtain _ | ⟨_ | _ | _, _⟩ := ha
    all_goals simp [Failed] at hf
  case annAssign ha => cases ha <;> simp [Failed] at hf
  case typed hd => cases hd <;> simp [Failed] at hf
  case «for» hr _ =>
    obtain ⟨_, _, _, _ | _⟩ := hr
    all_goals simp [Failed] at hf
  all_goals simp [Failed] at hf

theorem registered_of_failed {s : PyVerify.Stmt} (hf : Failed (emitStmt v s σ).value) :
    registered v lists s = lists := by
  have hn := (unchanged_of_failed (Emits.of_emitStmt s rfl) hf).left
  suffices h : registered v lists s = lists.add (emitStmt v s σ).notes from h.trans (congrArg lists.add hn)
  cases s
  case assign     => exact registered_assign
  case augAssign  => exact registered_augAssign
  case expr       => exact registered_expr
  case assert     => exact registered_assert
  case annAssign value =>
    cases value
    case none => exact (congrArg lists.add hn).symm
    case some => exact registered_annAssign
  case «return» value =>
    cases value
    case none => rfl
    case some => exact registered_return
  case «for» target _ _ _ =>
    cases target
    case name => exact registered_for.trans <| congrArg lists.add <| (Notes.eq_none_of_append hn).trans hn.symm
    all_goals rfl
  all_goals exact (congrArg lists.add hn).symm

-- An attempt that fails leaves the lists of the program as they were, and one that succeeds puts behind them what
-- its term calls for. A statement that a comment stands for has changed neither the lists nor the scope.
theorem failure_leaves_nothing (v : Verifier) (lists : Notes) :
    (∀ e, lower v e lists = (Code.lower v e).outcome lists) ∧
    (∀ e, lowerBare v e lists = (Code.lowerBare v e).outcome lists) ∧
    (∀ s left op right,
      node v (.binary s left op right) lists = (lowerOpen v (.binary s left op right)).outcome lists) ∧
    ∀ s σ, Failed (emitStmt v s σ).value →
      registered v lists s = lists ∧ (emitStmt v s σ).notes = .none ∧ (emitStmt v s σ).scope = σ := by
  refine ⟨fun _ => lower_mirrors _, fun _ => lowerBare_mirrors _, fun _ _ _ _ => ?_, fun s σ hf => ?_⟩
  case refine_1 => exact parts_mirror (node_follows _ _) (node_follows _ _) _
  case refine_2 =>
    obtain ⟨hn, hs⟩ := unchanged_of_failed (Emits.of_emitStmt s rfl) hf
    exact ⟨registered_of_failed hf, hn, hs.symm⟩

-- The statement `y = g(a[i], [i])`, whose second argument has no term.
def torn : PyVerify.Stmt :=
  .assign ⟨0, 16⟩ [.name ⟨0, 1⟩ "y"] (.call ⟨4, 12⟩ (.name ⟨4, 1⟩ "g")
    [.subscript ⟨6, 4⟩ (.name ⟨6, 1⟩ "a") (.name ⟨8, 1⟩ "i"), .list ⟨12, 3⟩ [.name ⟨13, 1⟩ "i"]] [])

theorem torn_leaves_nothing :
    (emitStmt .none torn ["a"]).value = [.placeholder (.assignment (.kind "list"))] ∧
      registered .none ⟨[.overflow], []⟩ torn = ⟨[.overflow], []⟩ ∧
      (emitStmt .none torn ["a"]).notes = .none ∧ (emitStmt .none torn ["a"]).scope = ["a"] := by
  have hc : (emitStmt .none torn ["a"]).value = [.placeholder (.assignment (.kind "list"))] := rfl
  exact ⟨hc, (failure_leaves_nothing .none ⟨[.overflow], []⟩).right.right.right torn ["a"] (.inl ⟨_, hc⟩)⟩

-- Behind its first argument the subscript is noted still.
example : (arguments .none [.subscript ⟨6, 4⟩ (.name ⟨6, 1⟩ "a") (.name ⟨8, 1⟩ "i"), .list ⟨12, 3⟩ []]
    ⟨[.overflow], []⟩).snd = ⟨[.overflow, .bounds], []⟩ := by
  decide

end Registering

end PyVerify.Code
