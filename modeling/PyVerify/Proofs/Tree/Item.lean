import PyVerify.Parser.Target
import PyVerify.Proofs.Tree.Part

namespace PyVerify

-- Whatever has a place of its own in the source of a program.
inductive Item where
  | expr (e : Expr)
  | pattern (p : Pattern)
  | stmt (s : Stmt)
  | param (p : Param Expr)
  | keyword (k : KeywordArg Expr)
  | imported (a : Alias)
  | handler (h : Handler Stmt)
  | case (c : MatchCase Stmt)
  | ident (i : Ident)

namespace Item

def span : Item → Span
  | expr e    => e.span
  | pattern p => p.span
  | stmt s    => s.span
  | param p   => p.span
  | keyword k => k.span
  | imported a => a.span
  | handler h => h.span
  | case c    => c.span
  | ident i   => i.span

def ofExpr : Expr → List Item
  | .name .. | .constant ..             => []
  | .binary _ left _ right              => [expr left, expr right]
  | .unary _ _ operand                  => [expr operand]
  | .bool _ _ values                    => values.map expr
  | .compare _ left links               => expr left :: links.map (expr ·.snd)
  | .call _ func args keywords          => expr func :: (args.map expr ++ keywords.map keyword)
  | .attr _ value name                  => [expr value, ident name]
  | .subscript _ value index            => [expr value, expr index]
  | .slice _ lower upper step           => (lower.toList ++ upper.toList ++ step.toList).map expr
  | .starred _ value                    => [expr value]
  | .tuple _ items | .list _ items | .set _ items => items.map expr
  | .dict _ entries                     => entries.flatMap (·.exprs.map expr)
  | .conditional _ test body orelse     => [expr test, expr body, expr orelse]
  | .lambda _ params body               => params.map param ++ [expr body]
  | .listComp _ item gens | .setComp _ item gens | .generator _ item gens =>
    expr item :: gens.flatMap (·.exprs.map expr)
  | .dictComp _ key value gens          => expr key :: expr value :: gens.flatMap (·.exprs.map expr)
  | .named _ target value               => [expr target, expr value]
  | .await _ value | .yieldFrom _ value => [expr value]
  | .yield _ value                      => value.toList.map expr

def ofPattern : Pattern → List Item
  | .value _ e                          => [expr e]
  | .capture _ name | .star _ name      => name.toList.map ident
  | .sequence _ items | .or _ items     => items.map pattern
  | .mapping _ entries rest             =>
    entries.flatMap (fun (key, p) => [expr key, pattern p]) ++ rest.toList.map ident
  | .class _ cls items keywords         =>
    expr cls :: (items.map pattern ++ keywords.flatMap fun (name, p) => [ident name, pattern p])
  | .as _ p name                        => [pattern p, ident name]

def ofStmt : Stmt → List Item
  | .functionDef _ name _ decorators params returns block =>
    ident name :: (decorators.map expr ++ params.map param ++ returns.toList.map expr ++ block.map stmt)
  | .classDef _ name decorators bases keywords block =>
    ident name :: (decorators.map expr ++ bases.map expr ++ keywords.map keyword ++ block.map stmt)
  | .return _ value                     => value.toList.map expr
  | .delete _ targets                   => targets.map expr
  | .assign _ targets value             => targets.map expr ++ [expr value]
  | .augAssign _ target _ value         => [expr target, expr value]
  | .annAssign _ target annotation value => expr target :: expr annotation :: value.toList.map expr
  | .for _ _ target iter block other    => expr target :: expr iter :: (block.map stmt ++ other.map stmt)
  | .while _ test block other | .if _ test block other =>
    expr test :: (block.map stmt ++ other.map stmt)
  | .with _ _ items block               => items.flatMap (·.exprs.map expr) ++ block.map stmt
  | .raise _ exc cause                  => exc.toList.map expr ++ cause.toList.map expr
  | .try _ _ block handlers other final =>
    block.map stmt ++ handlers.map handler ++ other.map stmt ++ final.map stmt
  | .match _ subject cases              => expr subject :: cases.map case
  | .typeAlias _ name typeParams value  => ident name :: (typeParams.map ident ++ [expr value])
  | .assert _ test message              => expr test :: message.toList.map expr
  | .importModules _ names | .importFrom _ _ names _ => names.map imported
  | .global _ names | .nonlocal _ names => names.map ident
  | .expr _ value                       => [expr value]
  | .pass _ | .break _ | .continue _    => []

-- What stands directly below an item and has a place of its own.
def parts : Item → List Item
  | expr e    => ofExpr e
  | pattern p => ofPattern p
  | stmt s    => ofStmt s
  | param p   => ident p.name :: p.exprs.map expr
  | keyword k => k.name.toList.map ident ++ [expr k.value]
  | imported a => a.rename.toList.map ident
  | handler h => h.type.toList.map expr ++ h.name.toList.map ident ++ h.body.map stmt
  | case c    => pattern c.pattern :: (c.guard.toList.map expr ++ c.body.map stmt)
  | ident _   => []

-- The blocks of statements among the parts.
def blocks : Item → List (List Stmt)
  | stmt (.try _ _ block _ other final) => [block, other, final]
  | stmt (.match ..)                    => []
  | stmt s                              => s.blocks
  | handler h                           => [h.body]
  | case c                              => [c.body]
  | _                                   => []

end Item

-- An item stands somewhere below another one, or is this item.
def Item.Within : Item → Item → Prop :=
  Relation.ReflTransGen (· ∈ ·.parts)

def Node.item : Node → Item
  | expr e    => .expr e
  | pattern p => .pattern p
  | stmt s    => .stmt s

theorem Item.Within.through {i j k : Item} (hj : j ∈ i.parts) (hk : k ∈ j.parts) : k.Within i :=
  .tail (.single hk) hj

-- Parameters, keywords, handlers and cases stand between some nodes and their parts.

theorem Part.within_expr {n : Node} {e : Expr} (h : Part n (.expr e)) : n.item.Within (.expr e) := by
  cases h
  case lambdaParam h hp =>
    exact .through (List.mem_append_left _ <| List.mem_map_of_mem h)
      (.tail _ <| List.mem_map_of_mem <| Param.holds_iff.mp hp)
  case keyword h =>
    exact .through (.tail _ <| List.mem_append_right _ <| List.mem_map_of_mem h) (List.mem_append_right _ <| .head _)
  all_goals
    refine .single ?_
    simp only [Node.item, Item.parts, Item.ofExpr]
    simp_all [Generator.holds_iff, DictEntry.holds_iff]
  all_goals grind

theorem Part.within_pattern {n : Node} {p : Pattern} (h : Part n (.pattern p)) : n.item.Within (.pattern p) := by
  cases h
  all_goals
    refine .single ?_
    simp only [Node.item, Item.parts, Item.ofPattern]
    simp_all
  all_goals grind

theorem Part.within_stmt {n : Node} {s : Stmt} (h : Part n (.stmt s)) : n.item.Within (.stmt s) := by
  cases h
  case functionParam h hp =>
    exact .through (j := .param _) (by simp [Item.parts, Item.ofStmt, h])
      (.tail _ <| List.mem_map_of_mem <| Param.holds_iff.mp hp)
  case classArgument h =>
    exact .through (j := .keyword _) (by simp [Item.parts, Item.ofStmt, h]) (List.mem_append_right _ <| .head _)
  case caught h hx | handler h hx =>
    have hm := List.mem_map_of_mem (f := Item.handler) h
    refine .through (List.mem_append_left _ <| List.mem_append_left _ <| List.mem_append_right _ hm) ?_
    simp [Node.item, Item.parts, hx]
  case casePattern h =>
    exact .through (j := .case _) (.tail _ <| List.mem_map_of_mem h) (.head _)
  case guard h hx | caseBody h hx =>
    exact .through (j := .case _) (.tail _ <| List.mem_map_of_mem h) (by simp [Node.item, Item.parts, hx])
  all_goals
    refine .single ?_
    simp only [Node.item, Item.parts, Item.ofStmt]
    simp_all [WithItem.exprs]
  all_goals grind

theorem Part.within : ∀ {n m : Node}, Part n m → n.item.Within m.item
  | _, .expr _, h     => h.within_expr
  | _, .pattern _, h  => h.within_pattern
  | _, .stmt _, h     => h.within_stmt

theorem Within.item {n m : Node} (h : Within n m) : n.item.Within m.item := by
  induction h
  case refl => exact .refl
  case tail hp hi => exact hi.trans hp.within

end PyVerify
