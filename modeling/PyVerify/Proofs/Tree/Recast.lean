import PyVerify.Parser.Target
import PyVerify.Proofs.Tree.Unplaced

namespace PyVerify

-- Other places and other names for what is in a tree. A name of several parts is the names of its parts, and the star
-- that stands for all names of a module stays.
structure Recasting where
  place : Span → Span
  name  : String → String
  join  : ∀ a b, place (a.join b) = (place a).join (place b)
  dot   : ∀ a b, name (a ++ "." ++ b) = name a ++ "." ++ name b
  star  : name "*" = "*"

attribute [simp] Recasting.join Recasting.dot Recasting.star

-- All places are the same.
def Recasting.forget : Recasting where
  place _   := .nowhere
  name text := text
  join _ _  := rfl
  dot _ _   := rfl
  star      := rfl

-- Everything stays as it is.
def Recasting.keep : Recasting where
  place z   := z
  name text := text
  join _ _  := rfl
  dot _ _   := rfl
  star      := rfl

variable (f : Recasting)

def Ident.recast (i : Ident) : Ident :=
  ⟨f.name i.text, f.place i.span⟩

def Alias.recast (a : Alias) : Alias :=
  ⟨f.place a.span, f.name a.name, a.rename.map (Ident.recast f)⟩

mutual

def Expr.recast : Expr → Expr
  | .name s id                        => .name (f.place s) (f.name id)
  | .constant s value                 => .constant (f.place s) value
  | .binary s left op right           => .binary (f.place s) left.recast op right.recast
  | .unary s op operand               => .unary (f.place s) op operand.recast
  | .bool s op values                 => .bool (f.place s) op (recastAll values)
  | .compare s left links             => .compare (f.place s) left.recast (recastLinks links)
  | .call s func args keywords        => .call (f.place s) func.recast (recastAll args) (recastKeywords keywords)
  | .attr s value i                   => .attr (f.place s) value.recast (i.recast f)
  | .subscript s value index          => .subscript (f.place s) value.recast index.recast
  | .slice s lower upper step         => .slice (f.place s) (recastOption lower) (recastOption upper) (recastOption step)
  | .starred s value                  => .starred (f.place s) value.recast
  | .tuple s items                    => .tuple (f.place s) (recastAll items)
  | .list s items                     => .list (f.place s) (recastAll items)
  | .set s items                      => .set (f.place s) (recastAll items)
  | .dict s entries                   => .dict (f.place s) (recastEntries entries)
  | .conditional s test body orelse   => .conditional (f.place s) test.recast body.recast orelse.recast
  | .lambda s params body             => .lambda (f.place s) (recastParams params) body.recast
  | .listComp s item generators       => .listComp (f.place s) item.recast (recastGenerators generators)
  | .setComp s item generators        => .setComp (f.place s) item.recast (recastGenerators generators)
  | .dictComp s key value generators  => .dictComp (f.place s) key.recast value.recast (recastGenerators generators)
  | .generator s item generators      => .generator (f.place s) item.recast (recastGenerators generators)
  | .named s target value             => .named (f.place s) target.recast value.recast
  | .await s value                    => .await (f.place s) value.recast
  | .yield s value                    => .yield (f.place s) (recastOption value)
  | .yieldFrom s value                => .yieldFrom (f.place s) value.recast

def Expr.recastAll : List Expr → List Expr
  | []      => []
  | e :: es => e.recast :: recastAll es

def Expr.recastOption : Option Expr → Option Expr
  | none    => none
  | some e  => some e.recast

def Expr.recastLinks : List (CompareOp × Expr) → List (CompareOp × Expr)
  | []            => []
  | (op, e) :: ls => (op, e.recast) :: recastLinks ls

def Expr.recastKeywords : List (KeywordArg Expr) → List (KeywordArg Expr)
  | []                  => []
  | ⟨s, i, value⟩ :: ks => ⟨f.place s, i.map (Ident.recast f), value.recast⟩ :: recastKeywords ks

def Expr.recastEntries : List (DictEntry Expr) → List (DictEntry Expr)
  | []                      => []
  | .pair key value :: ds   => .pair key.recast value.recast :: recastEntries ds
  | .unpack mapping :: ds   => .unpack mapping.recast :: recastEntries ds

def Expr.recastParams : List (Param Expr) → List (Param Expr)
  | []                                          => []
  | ⟨s, i, kind, annotation, defaultValue⟩ :: ps =>
    ⟨f.place s, i.recast f, kind, recastOption annotation, recastOption defaultValue⟩ :: recastParams ps

def Expr.recastGenerators : List (Generator Expr) → List (Generator Expr)
  | []                                          => []
  | ⟨target, iter, conditions, isAsync⟩ :: gs   =>
    ⟨target.recast, iter.recast, recastAll conditions, isAsync⟩ :: recastGenerators gs

end

mutual

def Pattern.recast : Pattern → Pattern
  | .value s e                  => .value (f.place s) (e.recast f)
  | .capture s name             => .capture (f.place s) (name.map (Ident.recast f))
  | .star s name                => .star (f.place s) (name.map (Ident.recast f))
  | .sequence s items           => .sequence (f.place s) (recastAll items)
  | .mapping s entries rest     => .mapping (f.place s) (recastEntries entries) (rest.map (Ident.recast f))
  | .class s cls items keywords => .class (f.place s) (cls.recast f) (recastAll items) (recastKeywords keywords)
  | .or s alternatives          => .or (f.place s) (recastAll alternatives)
  | .as s pattern name          => .as (f.place s) pattern.recast (name.recast f)

def Pattern.recastAll : List Pattern → List Pattern
  | []      => []
  | p :: ps => p.recast :: recastAll ps

def Pattern.recastEntries : List (Expr × Pattern) → List (Expr × Pattern)
  | []            => []
  | (e, p) :: es  => (e.recast f, p.recast) :: recastEntries es

def Pattern.recastKeywords : List (Ident × Pattern) → List (Ident × Pattern)
  | []            => []
  | (i, p) :: ks  => (i.recast f, p.recast) :: recastKeywords ks

end

def WithItem.recast (i : WithItem) : WithItem :=
  ⟨i.context.recast f, i.binding.map (Expr.recast f)⟩

mutual

def Stmt.recast : Stmt → Stmt
  | .functionDef s name isAsync decorators params returns block =>
    .functionDef (f.place s) (name.recast f) isAsync (decorators.map (Expr.recast f)) (Expr.recastParams f params)
      (returns.map (Expr.recast f)) (recastAll block)
  | .classDef s name decorators bases keywords block =>
    .classDef (f.place s) (name.recast f) (decorators.map (Expr.recast f)) (bases.map (Expr.recast f))
      (Expr.recastKeywords f keywords) (recastAll block)
  | .return s value                     => .return (f.place s) (value.map (Expr.recast f))
  | .delete s targets                   => .delete (f.place s) (targets.map (Expr.recast f))
  | .assign s targets value             => .assign (f.place s) (targets.map (Expr.recast f)) (value.recast f)
  | .augAssign s target op value        => .augAssign (f.place s) (target.recast f) op (value.recast f)
  | .annAssign s target annotation value =>
    .annAssign (f.place s) (target.recast f) ( annotation.recast f) (value.map (Expr.recast f))
  | .for s isAsync target iter block other =>
    .for (f.place s) isAsync (target.recast f) (iter.recast f) (recastAll block) (recastAll other)
  | .while s test block other           => .while (f.place s) (test.recast f) (recastAll block) (recastAll other)
  | .if s test block other              => .if (f.place s) (test.recast f) (recastAll block) (recastAll other)
  | .with s isAsync items block         => .with (f.place s) isAsync (items.map (WithItem.recast f)) (recastAll block)
  | .raise s exc cause                  => .raise (f.place s) (exc.map (Expr.recast f)) (cause.map (Expr.recast f))
  | .try s isStar block handlers other final =>
    .try (f.place s) isStar (recastAll block) (recastHandlers handlers) (recastAll other) (recastAll final)
  | .match s subject cases              => .match (f.place s) (subject.recast f) (recastCases cases)
  | .typeAlias s name typeParams value  =>
    .typeAlias (f.place s) (name.recast f) (typeParams.map (Ident.recast f)) (value.recast f)
  | .assert s test message              => .assert (f.place s) (test.recast f) (message.map (Expr.recast f))
  | .importModules s names              => .importModules (f.place s) (names.map (Alias.recast f))
  | .importFrom s module names level    => .importFrom (f.place s) (module.map f.name) (names.map (Alias.recast f)) level
  | .global s names                     => .global (f.place s) (names.map (Ident.recast f))
  | .nonlocal s names                   => .nonlocal (f.place s) (names.map (Ident.recast f))
  | .expr s value                       => .expr (f.place s) (value.recast f)
  | .pass s                             => .pass (f.place s)
  | .break s                            => .break (f.place s)
  | .continue s                         => .continue (f.place s)

def Stmt.recastAll : List Stmt → List Stmt
  | []      => []
  | s :: ss => s.recast :: recastAll ss

def Stmt.recastHandlers : List (Handler Stmt) → List (Handler Stmt)
  | []                              => []
  | ⟨s, type, name, block⟩ :: hs    =>
    ⟨f.place s, type.map (Expr.recast f), name.map (Ident.recast f), recastAll block⟩ :: recastHandlers hs

def Stmt.recastCases : List (MatchCase Stmt) → List (MatchCase Stmt)
  | []                                => []
  | ⟨s, pattern, guard, block⟩ :: cs  =>
    ⟨f.place s, pattern.recast f, guard.map (Expr.recast f), recastAll block⟩ :: recastCases cs

end

def KeywordArg.recast (k : KeywordArg Expr) : KeywordArg Expr :=
  ⟨f.place k.span, k.name.map (Ident.recast f), k.value.recast f⟩

def DictEntry.recast : DictEntry Expr → DictEntry Expr
  | .pair key value => .pair (key.recast f) (value.recast f)
  | .unpack mapping => .unpack (mapping.recast f)

def Param.recast (p : Param Expr) : Param Expr :=
  ⟨f.place p.span, p.name.recast f, p.kind, p.annotation.map (Expr.recast f), p.defaultValue.map (Expr.recast f)⟩

def Generator.recast (g : Generator Expr) : Generator Expr :=
  ⟨g.target.recast f, g.iter.recast f, g.conditions.map (Expr.recast f), g.isAsync⟩

def Handler.recast (h : Handler Stmt) : Handler Stmt :=
  ⟨f.place h.span, h.type.map (Expr.recast f), h.name.map (Ident.recast f), h.body.map (Stmt.recast f)⟩

def MatchCase.recast (c : MatchCase Stmt) : MatchCase Stmt :=
  ⟨f.place c.span, c.pattern.recast f, c.guard.map (Expr.recast f), c.body.map (Stmt.recast f)⟩

def Module.recast (m : Module) : Module :=
  ⟨m.body.map (Stmt.recast f)⟩

attribute [simp] Ident.recast Alias.recast WithItem.recast
attribute [simp] Expr.recast Expr.recastAll Expr.recastOption Expr.recastLinks Expr.recastKeywords Expr.recastEntries
  Expr.recastParams Expr.recastGenerators KeywordArg.recast DictEntry.recast Param.recast Generator.recast
attribute [simp] Pattern.recast Pattern.recastAll Pattern.recastEntries Pattern.recastKeywords
attribute [simp] Stmt.recast Stmt.recastAll Stmt.recastHandlers Stmt.recastCases Handler.recast MatchCase.recast

variable {f}

namespace Expr

@[simp] theorem recastAll_eq (es : List Expr) : recastAll f es = es.map (recast f) := by
  induction es <;> simp_all

@[simp] theorem recastOption_eq (o : Option Expr) : recastOption f o = o.map (recast f) := by
  cases o <;> simp

@[simp] theorem recastLinks_eq (links : List (CompareOp × Expr)) :
    recastLinks f links = links.map (Prod.map id (recast f)) := by
  induction links <;> simp_all [Prod.map]

@[simp] theorem recastKeywords_eq (ks : List (KeywordArg Expr)) : recastKeywords f ks = ks.map (KeywordArg.recast f) := by
  induction ks <;> simp_all

@[simp] theorem recastEntries_eq (ds : List (DictEntry Expr)) : recastEntries f ds = ds.map (DictEntry.recast f) := by
  induction ds
  case nil            => simp
  case cons d _ hi    => cases d <;> simp [hi]

@[simp] theorem recastParams_eq (ps : List (Param Expr)) : recastParams f ps = ps.map (Param.recast f) := by
  induction ps <;> simp_all

@[simp] theorem recastGenerators_eq (gs : List (Generator Expr)) : recastGenerators f gs = gs.map (Generator.recast f) := by
  induction gs <;> simp_all

@[simp] theorem span_recast (e : Expr) : (e.recast f).span = f.place e.span := by
  cases e <;> simp [span]

@[simp] theorem isName_recast (e : Expr) : (e.recast f).isName = e.isName := by
  cases e <;> simp [isName]

@[simp] theorem isPlace_recast (e : Expr) : (e.recast f).isPlace = e.isPlace := by
  cases e <;> simp [isPlace]

end Expr

namespace Pattern

@[simp] theorem recastAll_eq (ps : List Pattern) : recastAll f ps = ps.map (recast f) := by
  induction ps <;> simp_all

@[simp] theorem recastEntries_eq (es : List (Expr × Pattern)) :
    recastEntries f es = es.map (Prod.map (Expr.recast f) (recast f)) := by
  induction es <;> simp_all [Prod.map]

@[simp] theorem recastKeywords_eq (ks : List (Ident × Pattern)) :
    recastKeywords f ks = ks.map (Prod.map (Ident.recast f) (recast f)) := by
  induction ks <;> simp_all [Prod.map]

@[simp] theorem span_recast (p : Pattern) : (p.recast f).span = f.place p.span := by
  cases p <;> simp [span]

end Pattern

namespace Stmt

@[simp] theorem recastAll_eq (ss : List Stmt) : recastAll f ss = ss.map (recast f) := by
  induction ss <;> simp_all

@[simp] theorem recastHandlers_eq (hs : List (Handler Stmt)) : recastHandlers f hs = hs.map (Handler.recast f) := by
  induction hs <;> simp_all

@[simp] theorem recastCases_eq (cs : List (MatchCase Stmt)) : recastCases f cs = cs.map (MatchCase.recast f) := by
  induction cs <;> simp_all

end Stmt

-- What can be read anew.
class Recast (α : Type) where
  recast : Recasting → α → α

section

open Recast (recast)

variable {α β : Type} [Recast α] [Recast β]

instance : Recast Expr := ⟨Expr.recast⟩
instance : Recast Pattern := ⟨Pattern.recast⟩
instance : Recast Stmt := ⟨Stmt.recast⟩
instance : Recast Ident := ⟨Ident.recast⟩
instance : Recast Alias := ⟨Alias.recast⟩
instance : Recast WithItem := ⟨WithItem.recast⟩
instance : Recast (KeywordArg Expr) := ⟨KeywordArg.recast⟩
instance : Recast (DictEntry Expr) := ⟨DictEntry.recast⟩
instance : Recast (Param Expr) := ⟨Param.recast⟩
instance : Recast (Generator Expr) := ⟨Generator.recast⟩
instance : Recast (Handler Stmt) := ⟨Handler.recast⟩
instance : Recast (MatchCase Stmt) := ⟨MatchCase.recast⟩
instance : Recast Span := ⟨Recasting.place⟩
instance : Recast Unit := ⟨fun _ => id⟩
instance : Recast Bool := ⟨fun _ => id⟩
instance : Recast Nat := ⟨fun _ => id⟩
instance : Recast String := ⟨fun _ => id⟩
instance : Recast CompareOp := ⟨fun _ => id⟩
instance : Recast BinaryOp := ⟨fun _ => id⟩
instance : Recast (List α) := ⟨fun f => List.map (recast f)⟩
instance : Recast (Option α) := ⟨fun f => Option.map (recast f)⟩
instance : Recast (α × β) := ⟨fun f => Prod.map (recast f) (recast f)⟩

@[simp] theorem recast_expr : (recast f : Expr → Expr) = Expr.recast f := rfl
@[simp] theorem recast_pattern : (recast f : Pattern → Pattern) = Pattern.recast f := rfl
@[simp] theorem recast_stmt : (recast f : Stmt → Stmt) = Stmt.recast f := rfl
@[simp] theorem recast_ident : (recast f : Ident → Ident) = Ident.recast f := rfl
@[simp] theorem recast_alias : (recast f : Alias → Alias) = Alias.recast f := rfl
@[simp] theorem recast_withItem : (recast f : WithItem → WithItem) = WithItem.recast f := rfl
@[simp] theorem recast_keywordArg : (recast f : KeywordArg Expr → KeywordArg Expr) = KeywordArg.recast f := rfl
@[simp] theorem recast_dictEntry : (recast f : DictEntry Expr → DictEntry Expr) = DictEntry.recast f := rfl
@[simp] theorem recast_param : (recast f : Param Expr → Param Expr) = Param.recast f := rfl
@[simp] theorem recast_generator : (recast f : Generator Expr → Generator Expr) = Generator.recast f := rfl
@[simp] theorem recast_handler : (recast f : Handler Stmt → Handler Stmt) = Handler.recast f := rfl
@[simp] theorem recast_matchCase : (recast f : MatchCase Stmt → MatchCase Stmt) = MatchCase.recast f := rfl
@[simp] theorem recast_span : (recast f : Span → Span) = f.place := rfl
@[simp] theorem recast_unit : (recast f : Unit → Unit) = id := rfl
@[simp] theorem recast_bool : (recast f : Bool → Bool) = id := rfl
@[simp] theorem recast_nat : (recast f : Nat → Nat) = id := rfl
@[simp] theorem recast_string : (recast f : String → String) = id := rfl
@[simp] theorem recast_compareOp : (recast f : CompareOp → CompareOp) = id := rfl
@[simp] theorem recast_binaryOp : (recast f : BinaryOp → BinaryOp) = id := rfl
@[simp] theorem recast_list : (recast f : List α → List α) = List.map (recast f) := rfl
@[simp] theorem recast_option : (recast f : Option α → Option α) = Option.map (recast f) := rfl
@[simp] theorem recast_prod : (recast f : α × β → α × β) = Prod.map (recast f) (recast f) := rfl

-- Two things become the same when each is read anew in its own way.
@[simp] def Same (f g : Recasting) (a b : α) : Prop :=
  recast f a = recast g b

end

namespace Same

variable {g : Recasting}

theorem none {α : Type} [Recast α] : Same f g (none : Option α) .none := rfl

theorem nil {α : Type} [Recast α] : Same f g ([] : List α) [] := rfl

theorem span {a b : Expr} (h : Same f g a b) : f.place a.span = g.place b.span := by
  have hs := congrArg Expr.span h
  simpa using hs

theorem pattern_span {a b : Pattern} (h : Same f g a b) : f.place a.span = g.place b.span := by
  have hs := congrArg Pattern.span h
  simpa using hs

theorem isName {a b : Expr} (h : Same f g a b) : a.isName = b.isName := by
  have hs := congrArg Expr.isName h
  simpa using hs

theorem isPlace {a b : Expr} (h : Same f g a b) : a.isPlace = b.isPlace := by
  have hs := congrArg Expr.isPlace h
  simpa using hs

end Same

-- What keeps an expression from being a target is in its shape.
theorem Expr.unassignable?_recast_all : (∀ e : Expr, (e.recast f).unassignable?.isSome = e.unassignable?.isSome) ∧
    ∀ es, (firstUnassignable? (es.map (recast f))).isSome = (firstUnassignable? es).isSome := by
  apply unassignable?.mutual_induct
  case case7  => intro e; cases e <;> simp_all [unassignable?]
  case case9  =>
    intro e es part hp hi
    obtain ⟨_, hs⟩ := Option.isSome_iff_exists.mp (hi.trans <| hp ▸ rfl)
    simp [firstUnassignable?, hp, hs]
  all_goals simp_all [unassignable?, firstUnassignable?]

theorem Same.assignable {g : Recasting} {a b : Expr} (h : Same f g a b) :
    a.unassignable?.isSome = b.unassignable?.isSome := by
  have hs := congrArg (·.unassignable?.isSome) h
  simpa [Expr.unassignable?_recast_all.left] using hs

-- Nothing changes.

@[simp] theorem Recasting.place_keep (z : Span) : keep.place z = z := rfl

@[simp] theorem Recasting.name_keep : keep.name = id := rfl

@[simp] theorem Ident.recast_keep : recast .keep = id := rfl

theorem Expr.recast_keep_all : (∀ e, recast .keep e = e) ∧ (∀ gs, recastGenerators .keep gs = gs) ∧
    (∀ es, recastAll .keep es = es) ∧ (∀ ps, recastParams .keep ps = ps) ∧ (∀ o, recastOption .keep o = o) ∧
      (∀ ds, recastEntries .keep ds = ds) ∧ (∀ ks, recastKeywords .keep ks = ks) ∧ ∀ ls, recastLinks .keep ls = ls := by
  apply recast.mutual_induct <;> simp_all

@[simp] theorem Expr.recast_keep : recast .keep = id :=
  funext recast_keep_all.left

@[simp] theorem Param.recast_keep : recast .keep = id := by
  funext p
  simp

@[simp] theorem KeywordArg.recast_keep : recast .keep = id := by
  funext k
  simp

theorem Pattern.recast_keep_all : (∀ p, recast .keep p = p) ∧ (∀ ks, recastKeywords .keep ks = ks) ∧
    (∀ es, recastEntries .keep es = es) ∧ ∀ ps, recastAll .keep ps = ps := by
  apply recast.mutual_induct <;> simp_all

@[simp] theorem Pattern.recast_keep : recast .keep = id :=
  funext recast_keep_all.left

@[simp] theorem WithItem.recast_keep : recast .keep = id := by
  funext i
  simp

@[simp] theorem Alias.recast_keep : recast .keep = id := by
  funext a
  simp

theorem Stmt.recast_keep_all : (∀ s, recast .keep s = s) ∧ (∀ cs, recastCases .keep cs = cs) ∧
    (∀ ss, recastAll .keep ss = ss) ∧ ∀ hs, recastHandlers .keep hs = hs := by
  apply recast.mutual_induct <;> simp_all

@[simp] theorem Stmt.recast_keep : recast .keep = id :=
  funext recast_keep_all.left

@[simp] theorem Module.recast_keep : recast .keep = id := by
  funext m
  simp [recast]

-- The places are gone.

@[simp] theorem Recasting.place_forget (z : Span) : forget.place z = .nowhere := rfl

@[simp] theorem Recasting.name_forget : forget.name = id := rfl

@[simp] theorem Ident.recast_forget : recast .forget = unplaced := rfl

theorem Expr.recast_forget_all : (∀ e, recast .forget e = e.unplaced) ∧ (∀ gs, recastGenerators .forget gs = unplacedGenerators gs) ∧
    (∀ es, recastAll .forget es = unplacedAll es) ∧ (∀ ps, recastParams .forget ps = unplacedParams ps) ∧
      (∀ o, recastOption .forget o = unplacedOption o) ∧ (∀ ds, recastEntries .forget ds = unplacedEntries ds) ∧
        (∀ ks, recastKeywords .forget ks = unplacedKeywords ks) ∧ ∀ ls, recastLinks .forget ls = unplacedLinks ls := by
  apply recast.mutual_induct <;> simp_all

@[simp] theorem Expr.recast_forget : recast .forget = unplaced :=
  funext recast_forget_all.left

@[simp] theorem KeywordArg.map_recast_forget (ks : List (KeywordArg Expr)) : ks.map (recast .forget) = Expr.unplacedKeywords ks := by
  simpa using Expr.recast_forget_all.right.right.right.right.right.right.left ks

@[simp] theorem Param.map_recast_forget (ps : List (Param Expr)) : ps.map (recast .forget) = Expr.unplacedParams ps := by
  simpa using Expr.recast_forget_all.right.right.right.left ps

@[simp] theorem Expr.map_unplaced (o : Option Expr) : o.map unplaced = unplacedOption o := by
  cases o <;> rfl

theorem Pattern.recast_forget_all : (∀ p, recast .forget p = p.unplaced) ∧ (∀ ks, recastKeywords .forget ks = unplacedKeywords ks) ∧
    (∀ es, recastEntries .forget es = unplacedEntries es) ∧ ∀ ps, recastAll .forget ps = unplacedAll ps := by
  apply recast.mutual_induct <;> simp_all [unplaced, unplacedAll, unplacedEntries, unplacedKeywords]

@[simp] theorem Pattern.recast_forget : recast .forget = unplaced :=
  funext recast_forget_all.left

@[simp] theorem WithItem.recast_forget : recast .forget = unplaced := by
  funext i
  simp [unplaced]

@[simp] theorem Alias.recast_forget : recast .forget = unplaced := by
  funext a
  simp

theorem Stmt.recast_forget_all : (∀ s, recast .forget s = s.unplaced) ∧ (∀ cs, recastCases .forget cs = unplacedCases cs) ∧
    (∀ ss, recastAll .forget ss = unplacedAll ss) ∧ ∀ hs, recastHandlers .forget hs = unplacedHandlers hs := by
  apply recast.mutual_induct <;> simp_all [unplacedCases, unplacedHandlers]

end PyVerify
