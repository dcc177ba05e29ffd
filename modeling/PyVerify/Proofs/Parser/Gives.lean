import PyVerify.Parser.Cursor
import PyVerify.Proofs.Token.Lexical

namespace PyVerify

open Token (Kind Mark IsName)

-- The tokens ahead are those of a text.
def Cursor.Lexical (c : Cursor) : Prop :=
  ∀ t ∈ c.rest, t.kind.IsLexical

namespace Parser

variable {α β σ : Type} {P Q : α → Prop} {R : β → Prop} {S : σ → Prop} {p q : Parser α}

-- Before the tokens of a text, what a parser gives has a property, and the tokens behind are still such ones.
def Gives (P : α → Prop) (p : Parser α) : Prop :=
  ∀ c a d, c.Lexical → p c = .ok (a, d) → P a ∧ d.Lexical

namespace Gives

theorem pure {a : α} (h : P a) : Gives P (Pure.pure a) := by
  rintro c _ _ hc ⟨⟩
  exact ⟨h, hc⟩

protected theorem some {a : α} (h : P a) : Gives (fun o => ∀ a ∈ o, P a) (Pure.pure (Option.some a)) :=
  .pure <| by simpa

protected theorem none : Gives (fun o => ∀ a ∈ o, P a) (Pure.pure Option.none) :=
  .pure nofun

theorem bind {f : α → Parser β} (hp : Gives P p) (hf : ∀ a, P a → Gives R (f a)) : Gives R (p >>= f) := by
  intro c b d hc h
  obtain ⟨⟨a, e⟩, ha, h⟩ := exists_ok_of_bind h
  obtain ⟨ha, he⟩ := hp _ _ _ hc ha
  exact hf a ha _ _ _ he h

theorem of_run {c : Cursor} {a : α} (h : Gives P p) (hc : c.Lexical) (hr : p.run' c = .ok a) : P a := by
  cases hp : p c <;> simp only [StateT.run', hp] at hr <;> cases hr
  exact (h _ _ _ hc hp).left

theorem mono (h : Gives P p) (hi : ∀ a, P a → Q a) : Gives Q p :=
  fun _ _ _ hc he => (h _ _ _ hc he).imp_left (hi _)

theorem any (h : Gives P p) : Gives (fun _ => True) p :=
  h.mono fun _ _ => trivial

theorem ite {b : Prop} [Decidable b] (ht : Gives P p) (hf : Gives P q) : Gives P (if b then p else q) := by
  split <;> assumption

theorem failAt {cause : SyntaxError.Cause} {s : Span} : Gives P (Parser.failAt cause s) :=
  nofun

theorem get : Gives Cursor.Lexical (MonadState.get : Parser Cursor) := by
  rintro c _ _ hc ⟨⟩
  exact ⟨hc, hc⟩

theorem set {c : Cursor} (h : c.Lexical) : Gives (fun _ => True) (MonadStateOf.set c : Parser PUnit) := by
  rintro _ _ _ _ ⟨⟩
  exact ⟨trivial, h⟩

theorem fail {cause : SyntaxError.Cause} : Gives P (Parser.fail cause) :=
  .bind .get fun _ _ => .failAt

theorem kind? {c : Cursor} (hc : c.Lexical) : ∀ k ∈ c.kind?, k.IsLexical := by
  intro k hk
  obtain ⟨t, ht, rfl⟩ := Option.map_eq_some_iff.mp hk
  exact hc t <| List.mem_of_mem_head? ht

theorem peek : Gives (fun k? => ∀ k ∈ k?, k.IsLexical) Parser.peek :=
  .bind .get fun _ hc => .pure (kind? hc)

theorem here : Gives (fun _ => True) Parser.here :=
  .bind .get fun _ _ => .pure trivial

theorem previous : Gives (fun _ => True) Parser.previous :=
  .bind .get fun _ _ => .pure trivial

theorem isAt {kind : Kind} : Gives (fun _ => True) (Parser.isAt kind) :=
  .bind .peek fun _ _ => .pure trivial

theorem next : Gives (fun t => t.kind.IsLexical) Parser.next := by
  refine .bind .get fun c hc => ?_
  split
  case h_1 t rest hr =>
    obtain ⟨ht, hs⟩ := List.forall_mem_cons.mp <| by rwa [Cursor.Lexical, hr] at hc
    exact .bind (.set hs) fun _ _ => .pure ht
  case h_2 => exact .failAt

theorem accept {kind : Kind} : Gives (fun _ => True) (Parser.accept kind) :=
  .bind .isAt fun _ _ => .ite (.bind .next fun _ _ => .pure trivial) (.pure trivial)

theorem expect {kind : Kind} : Gives (fun _ => True) (Parser.expect kind) :=
  .bind .next fun _ _ => .ite (.pure trivial) .failAt

theorem ident : Gives (fun i => IsName i.text) Parser.ident := by
  refine .bind .next fun t ht => ?_
  split
  case h_1 hk => exact .pure (hk ▸ ht : Kind.IsLexical (.name _))
  case h_2 => exact .failAt

section

variable {step : Parser (Option α)}

theorem repeatUpTo (h : Gives (fun o => ∀ a ∈ o, P a) step) (n : Nat) :
    Gives (fun as => ∀ a ∈ as, P a) (Parser.repeatUpTo step n) := by
  induction n
  case zero => exact .fail
  case succ n hi =>
    refine .bind h fun o ho => ?_
    cases o
    case none => exact .pure nofun
    case some a => exact .bind hi fun as has => .pure <| List.forall_mem_cons.mpr ⟨ho a rfl, has⟩

theorem many (h : Gives (fun o => ∀ a ∈ o, P a) step) : Gives (fun as => ∀ a ∈ as, P a) (Parser.many step) :=
  .bind .get fun _ _ => .repeatUpTo h _

end

theorem after {kind : Kind} (h : Gives P p) : Gives (fun o => ∀ a ∈ o, P a) (Parser.after kind p) :=
  .bind .accept fun _ _ => .ite (.bind h fun _ ha => .some ha) .none

theorem commaTail {stop : Parser Bool} (hs : Gives (fun _ => True) stop) (h : Gives P p) :
    Gives (fun as => ∀ a ∈ as, P a) (Parser.commaTail stop p) :=
  .many <| .bind .accept fun _ _ => .ite
    (.bind hs fun _ _ => .ite .none <| .bind h fun _ ha => .some ha) .none

theorem foldUpTo {close : Kind} {item : σ → Parser σ} (h : ∀ s, S s → Gives S (item s)) (n : Nat) {s : σ} (hs : S s) :
    Gives S (Parser.foldUpTo close item n s) := by
  induction n generalizing s
  case zero => exact .fail
  case succ n hi =>
    refine .bind .isAt fun _ _ => .ite (.pure hs) ?_
    exact .bind (h s hs) fun t ht => .bind .accept fun _ _ => .ite (hi ht) (.pure ht)

theorem foldItems {close : Kind} {item : σ → Parser σ} (h : ∀ s, S s → Gives S (item s)) {s : σ} (hs : S s) :
    Gives S (Parser.foldItems close item s) :=
  .bind .get fun _ _ => .foldUpTo h _ hs

theorem skipNewlines : Gives (fun _ => True) Parser.skipNewlines :=
  .bind (.many <| .bind .accept fun _ _ => .ite (.pure fun _ _ => trivial) (.pure nofun)) fun _ _ => .pure trivial

theorem startsExpr : Gives (fun _ => True) Parser.startsExpr := by
  refine .bind .peek fun _ _ => ?_
  split <;> exact .pure trivial

end Gives
end Parser
end PyVerify
