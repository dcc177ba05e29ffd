import PyVerify.Tree.Stmt

namespace PyVerify

-- The span of a node that is taken out of its source.
def Span.nowhere : Span :=
  .point 0

def Ident.unplaced (i : Ident) : Ident :=
  { i with span := .nowhere }

def Alias.unplaced (a : Alias) : Alias :=
  ⟨.nowhere, a.name, a.rename.map Ident.unplaced⟩

-- A tree without the places of its nodes: two trees are the same apart from their spans if these are equal.

mutual

def Expr.unplaced : Expr → Expr
  | .name _ id                        => .name .nowhere id
  | .constant _ value                 => .constant .nowhere value
  | .binary _ left op right           => .binary .nowhere left.unplaced op right.unplaced
  | .unary _ op operand               => .unary .nowhere op operand.unplaced
  | .bool _ op values                 => .bool .nowhere op (unplacedAll values)
  | .compare _ left links             => .compare .nowhere left.unplaced (unplacedLinks links)
  | .call _ func args keywords        =>
    .call .nowhere func.unplaced (unplacedAll args) (unplacedKeywords keywords)
  | .attr _ value i                   => .attr .nowhere value.unplaced i.unplaced
  | .subscript _ value index          => .subscript .nowhere value.unplaced index.unplaced
  | .slice _ lower upper step         =>
    .slice .nowhere (unplacedOption lower) (unplacedOption upper) (unplacedOption step)
  | .starred _ value                  => .starred .nowhere value.unplaced
  | .tuple _ items                    => .tuple .nowhere (unplacedAll items)
  | .list _ items                     => .list .nowhere (unplacedAll items)
  | .set _ items                      => .set .nowhere (unplacedAll items)
  | .dict _ entries                   => .dict .nowhere (unplacedEntries entries)
  | .conditional _ test body orelse   => .conditional .nowhere test.unplaced body.unplaced orelse.unplaced
  | .lambda _ params body             => .lambda .nowhere (unplacedParams params) body.unplaced
  | .listComp _ item generators       => .listComp .nowhere item.unplaced (unplacedGenerators generators)
  | .setComp _ item generators        => .setComp .nowhere item.unplaced (unplacedGenerators generators)
  | .dictComp _ key value generators  =>
    .dictComp .nowhere key.unplaced value.unplaced (unplacedGenerators generators)
  | .generator _ item generators      => .generator .nowhere item.unplaced (unplacedGenerators generators)
  | .named _ target value             => .named .nowhere target.unplaced value.unplaced
  | .await _ value                    => .await .nowhere value.unplaced
  | .yield _ value                    => .yield .nowhere (unplacedOption value)
  | .yieldFrom _ value                => .yieldFrom .nowhere value.unplaced

def Expr.unplacedAll : List Expr → List Expr
  | []      => []
  | e :: es => e.unplaced :: unplacedAll es

def Expr.unplacedOption : Option Expr → Option Expr
  | none    => none
  | some e  => some e.unplaced

def Expr.unplacedLinks : List (CompareOp × Expr) → List (CompareOp × Expr)
  | []            => []
  | (op, e) :: ls => (op, e.unplaced) :: unplacedLinks ls

def Expr.unplacedKeywords : List (KeywordArg Expr) → List (KeywordArg Expr)
  | []                  => []
  | ⟨_, i, value⟩ :: ks => ⟨.nowhere, i.map Ident.unplaced, value.unplaced⟩ :: unplacedKeywords ks

def Expr.unplacedEntries : List (DictEntry Expr) → List (DictEntry Expr)
  | []                      => []
  | .pair key value :: ds   => .pair key.unplaced value.unplaced :: unplacedEntries ds
  | .unpack mapping :: ds   => .unpack mapping.unplaced :: unplacedEntries ds

def Expr.unplacedParams : List (Param Expr) → List (Param Expr)
  | []                                          => []
  | ⟨_, i, kind, annotation, defaultValue⟩ :: ps =>
    ⟨.nowhere, i.unplaced, kind, unplacedOption annotation, unplacedOption defaultValue⟩ :: unplacedParams ps

def Expr.unplacedGenerators : List (Generator Expr) → List (Generator Expr)
  | []                                          => []
  | ⟨target, iter, conditions, isAsync⟩ :: gs   =>
    ⟨target.unplaced, iter.unplaced, unplacedAll conditions, isAsync⟩ :: unplacedGenerators gs

end

mutual

def Pattern.unplaced : Pattern → Pattern
  | .value _ e                  => .value .nowhere e.unplaced
  | .capture _ name             => .capture .nowhere (name.map Ident.unplaced)
  | .star _ name                => .star .nowhere (name.map Ident.unplaced)
  | .sequence _ items           => .sequence .nowhere (unplacedAll items)
  | .mapping _ entries rest     => .mapping .nowhere (unplacedEntries entries) (rest.map Ident.unplaced)
  | .class _ cls items keywords =>
    .class .nowhere cls.unplaced (unplacedAll items) (unplacedKeywords keywords)
  | .or _ alternatives          => .or .nowhere (unplacedAll alternatives)
  | .as _ pattern name          => .as .nowhere pattern.unplaced name.unplaced

def Pattern.unplacedAll : List Pattern → List Pattern
  | []      => []
  | p :: ps => p.unplaced :: unplacedAll ps

def Pattern.unplacedEntries : List (Expr × Pattern) → List (Expr × Pattern)
  | []            => []
  | (e, p) :: es  => (e.unplaced, p.unplaced) :: unplacedEntries es

def Pattern.unplacedKeywords : List (Ident × Pattern) → List (Ident × Pattern)
  | []            => []
  | (i, p) :: ks  => (i.unplaced, p.unplaced) :: unplacedKeywords ks

end

def WithItem.unplaced (i : WithItem) : WithItem :=
  ⟨i.context.unplaced, Expr.unplacedOption i.binding⟩

mutual

def Stmt.unplaced : Stmt → Stmt
  | .functionDef _ name isAsync decorators params returns block =>
    .functionDef .nowhere name.unplaced isAsync (Expr.unplacedAll decorators) (Expr.unplacedParams params)
      (Expr.unplacedOption returns) (unplacedAll block)
  | .classDef _ name decorators bases keywords block =>
    .classDef .nowhere name.unplaced (Expr.unplacedAll decorators) (Expr.unplacedAll bases)
      (Expr.unplacedKeywords keywords) (unplacedAll block)
  | .return _ value                     => .return .nowhere (Expr.unplacedOption value)
  | .delete _ targets                   => .delete .nowhere (Expr.unplacedAll targets)
  | .assign _ targets value             => .assign .nowhere (Expr.unplacedAll targets) value.unplaced
  | .augAssign _ target op value        => .augAssign .nowhere target.unplaced op value.unplaced
  | .annAssign _ target annotation value =>
    .annAssign .nowhere target.unplaced annotation.unplaced (Expr.unplacedOption value)
  | .for _ isAsync target iter block other =>
    .for .nowhere isAsync target.unplaced iter.unplaced (unplacedAll block) (unplacedAll other)
  | .while _ test block other           => .while .nowhere test.unplaced (unplacedAll block) (unplacedAll other)
  | .if _ test block other              => .if .nowhere test.unplaced (unplacedAll block) (unplacedAll other)
  | .with _ isAsync items block         => .with .nowhere isAsync (items.map WithItem.unplaced) (unplacedAll block)
  | .raise _ exc cause                  => .raise .nowhere (Expr.unplacedOption exc) (Expr.unplacedOption cause)
  | .try _ isStar block handlers other final =>
    .try .nowhere isStar (unplacedAll block) (unplacedHandlers handlers) (unplacedAll other) (unplacedAll final)
  | .match _ subject cases              => .match .nowhere subject.unplaced (unplacedCases cases)
  | .typeAlias _ name typeParams value  =>
    .typeAlias .nowhere name.unplaced (typeParams.map Ident.unplaced) value.unplaced
  | .assert _ test message              => .assert .nowhere test.unplaced (Expr.unplacedOption message)
  | .importModules _ names              => .importModules .nowhere (names.map Alias.unplaced)
  | .importFrom _ module names level    => .importFrom .nowhere module (names.map Alias.unplaced) level
  | .global _ names                     => .global .nowhere (names.map Ident.unplaced)
  | .nonlocal _ names                   => .nonlocal .nowhere (names.map Ident.unplaced)
  | .expr _ value                       => .expr .nowhere value.unplaced
  | .pass _                             => .pass .nowhere
  | .break _                            => .break .nowhere
  | .continue _                         => .continue .nowhere

def Stmt.unplacedAll : List Stmt → List Stmt
  | []      => []
  | s :: ss => s.unplaced :: unplacedAll ss

def Stmt.unplacedHandlers : List (Handler Stmt) → List (Handler Stmt)
  | []                              => []
  | ⟨_, type, name, block⟩ :: hs    =>
    ⟨.nowhere, Expr.unplacedOption type, name.map Ident.unplaced, unplacedAll block⟩ :: unplacedHandlers hs

def Stmt.unplacedCases : List (MatchCase Stmt) → List (MatchCase Stmt)
  | []                                => []
  | ⟨_, pattern, guard, block⟩ :: cs  =>
    ⟨.nowhere, pattern.unplaced, Expr.unplacedOption guard, unplacedAll block⟩ :: unplacedCases cs

end

attribute [simp] Ident.unplaced Alias.unplaced
attribute [simp] Expr.unplaced Expr.unplacedOption Expr.unplacedLinks Expr.unplacedKeywords Expr.unplacedEntries
  Expr.unplacedParams Expr.unplacedGenerators
attribute [simp] Stmt.unplaced

@[simp] theorem Expr.unplacedAll_eq (es : List Expr) : unplacedAll es = es.map unplaced := by
  induction es <;> simp_all [unplacedAll]

theorem Expr.unplacedLinks_eq (links : List (CompareOp × Expr)) :
    unplacedLinks links = links.map fun (op, e) => (op, e.unplaced) := by
  induction links <;> simp_all

@[simp] theorem Stmt.unplacedAll_eq (ss : List Stmt) : unplacedAll ss = ss.map unplaced := by
  induction ss <;> simp_all [unplacedAll]

end PyVerify
