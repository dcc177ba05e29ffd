import PyVerify.Proofs.Token.Lexical
import PyVerify.Proofs.Tree.Part

namespace PyVerify

open Token (IsName)
open Code (isEscaped)

-- The names and the strings directly in a node are such as a text has.

def Expr.IsLexical : Expr → Prop
  | .name _ id              => IsName id
  | .attr _ _ i             => IsName i.text
  | .constant _ (.str body) => isEscaped body.toList
  | _                       => True

def Alias.IsLexical (a : Alias) : Prop :=
  a.name = "*" ∨ IsName a.name

def Stmt.IsLexical : Stmt → Prop
  | .functionDef _ name _ _ params _ _ => IsName name.text ∧ ∀ p ∈ params, IsName p.name.text
  | .importFrom _ _ names _            => ∀ a ∈ names, a.IsLexical
  | _                                  => True

def Node.IsLexical : Node → Prop
  | expr e    => e.IsLexical
  | pattern _ => True
  | stmt s    => s.IsLexical

-- The same holds of all that stands below the node.
def Node.Lexical (n : Node) : Prop :=
  ∀ k, Within k n → k.IsLexical

namespace Node.Lexical

variable {n k : Node}

theorem of_parts (h : n.IsLexical) (hp : ∀ {k}, Part k n → k.Lexical) : n.Lexical := by
  intro k hk
  obtain rfl | ⟨m, hk, hm⟩ := within_iff.mp hk
  · exact h
  · exact hp hm k hk

theorem self (h : n.Lexical) : n.IsLexical :=
  h n .refl

theorem part (h : n.Lexical) (hp : Part k n) : k.Lexical :=
  fun _ hj => h _ <| hj.tail hp

end Node.Lexical

abbrev Expr.Lexical (e : Expr) : Prop :=
  (Node.expr e).Lexical

abbrev Pattern.Lexical (p : Pattern) : Prop :=
  (Node.pattern p).Lexical

abbrev Stmt.Lexical (s : Stmt) : Prop :=
  (Node.stmt s).Lexical

end PyVerify
