import PyVerify.Parser.Expression
import PyVerify.Proofs.Parser.Tracks

namespace PyVerify

open Token (Kind Keyword Mark)

-- What an expression can begin with.
def Token.Kind.beginsExpr : Kind → Bool
  | .name _ | .int _ | .wideInt _ | .float _ | .imaginary _ | .str _ | .bytes _
  | .keyword .kwTrue | .keyword .kwFalse | .keyword .kwNone
  | .keyword .kwNot | .keyword .kwLambda | .keyword .kwAwait
  | .mark .ellipsis | .mark .openParen | .mark .openBracket | .mark .openBrace
  | .mark .minus | .mark .plus | .mark .tilde | .mark .star => true
  | _ => false

namespace Parser

variable {α β : Type} {p q : Parser α} {b : Below} {k : Kind}

theorem startsExpr_eq_true_iff {c : Cursor} :
    startsExpr c = .ok (true, c) ↔ ∃ k, c.kind? = some k ∧ k.beginsExpr := by
  have hs : startsExpr c = .ok (c.kind?.any Kind.beginsExpr, c) := by
    unfold startsExpr
    rw [Tracks.bind_eq (x := c.kind?) (d := c) rfl]
    cases c.kind?
    case none => rfl
    case some k =>
      rw [Option.any_some]
      cases k
      case keyword w  => cases w <;> rfl
      case mark m     => cases m <;> rfl
      all_goals rfl
  rw [hs, ← Option.any_eq_true]
  exact ⟨fun h => congrArg Prod.fst (Except.ok.inj h), fun h => by rw [h]⟩

theorem beginsExpr_of_signOf? {op : UnaryOp} (h : signOf? k = some op) : k.beginsExpr := by
  unfold signOf? at h
  split at h <;> first | rfl | cases h

-- Whatever the parser gives has a property.
def Makes (P : α → Prop) (p : Parser α) : Prop :=
  ∀ c a d, p c = .ok (a, d) → P a

namespace Makes

variable {P : α → Prop} {R : β → Prop}

theorem pure {a : α} (h : P a) : Makes P (Pure.pure a) := by
  rintro c _ _ ⟨⟩
  exact h

theorem fail {cause : SyntaxError.Cause} : Makes P (Parser.fail cause) :=
  nofun

theorem failAt {cause : SyntaxError.Cause} {z : Span} : Makes P (Parser.failAt cause z) :=
  nofun

theorem bind {f : α → Parser β} (h : ∀ a, Makes R (f a)) : Makes R (p >>= f) := by
  intro c r e hp
  obtain ⟨a, d, -, hp⟩ := ok_of_bind hp
  exact h a d r e hp

theorem map {f : α → β} (hp : Makes P p) (h : ∀ a, P a → R (f a)) : Makes R (p >>= fun a => Pure.pure (f a)) := by
  intro c r e hf
  obtain ⟨a, d, hp', hf⟩ := ok_of_bind hf
  cases hf
  exact h a (hp c a _ hp')

theorem ite {c : Prop} [Decidable c] (ht : Makes P p) (hf : Makes P q) : Makes P (if c then p else q) := by
  split <;> assumption

theorem repeatUpTo {step : Parser (Option α)} (h : Makes (∀ a ∈ ·, P a) step) (n : Nat) :
    Makes (∀ a ∈ ·, P a) (Parser.repeatUpTo step n) := by
  induction n
  case zero => exact .fail
  case succ n hi =>
    intro c as e hr
    obtain ⟨o, d, ho, hr⟩ := ok_of_bind hr
    cases o
    case none =>
      cases hr
      exact nofun
    case some =>
      obtain ⟨as, _, ha, hr⟩ := ok_of_bind hr
      cases hr
      exact List.forall_mem_cons.mpr ⟨h c _ d ho _ rfl, hi d as _ ha⟩

end Makes

-- Where the parser comes to an end, the look at the next token has found the beginning of an expression.
def Opens (p : Parser α) : Prop :=
  ∀ c a d, p c = .ok (a, d) → startsExpr c = .ok (true, c)

namespace Opens

theorem bind {f : α → Parser β} (h : Opens p) : Opens (p >>= f) := by
  intro c _ _ hp
  obtain ⟨a, d, hp, -⟩ := ok_of_bind hp
  exact h c a d hp

theorem fail {cause : SyntaxError.Cause} : Opens (Parser.fail cause : Parser α) :=
  nofun

theorem isAt {f : Bool → Parser α} (hk : k.beginsExpr) (h : Opens (f false)) : Opens (Parser.isAt k >>= f) := by
  intro c a d hp
  obtain ⟨x, _, hx, hp⟩ := ok_of_bind hp
  cases hx
  by_cases hc : c.kind? = some k
  case pos => exact startsExpr_eq_true_iff.mpr ⟨k, hc, hk⟩
  case neg =>
    rw [beq_eq_false_iff_ne.mpr hc] at hp
    exact h c a d hp

theorem next {f : Token → Parser α} (h : ∀ t, t.kind.beginsExpr ∨ Makes (fun _ => False) (f t)) :
    Opens (Parser.next >>= f) := by
  rintro ⟨previous, _ | ⟨t, rest⟩, last, size⟩ a d hp
  case nil => cases hp
  case cons =>
    obtain ⟨_, _, hn, hp⟩ := ok_of_bind hp
    cases hn
    exact startsExpr_eq_true_iff.mpr ⟨t.kind, rfl, (h t).resolve_right fun hf => hf _ _ _ hp⟩

theorem peek {f : Option Kind → Parser α} (h : ∀ o, (∃ k, o = some k ∧ k.beginsExpr) ∨ Opens (f o)) :
    Opens (Parser.peek >>= f) :=
  fun c a d hp => (h c.kind?).elim startsExpr_eq_true_iff.mpr fun hf => hf c a d hp

theorem atom : Opens (Parser.atom b) := by
  refine .next fun t => ?_
  split
  case h_15 | h_16 | h_17 | h_18 => exact .inr .failAt
  all_goals exact .inl <| by simp only [*]; rfl

theorem primary : Opens (Parser.primary b) :=
  .bind .atom

theorem awaited : Opens (Parser.awaited b) :=
  .isAt rfl .primary

theorem power : Opens (Parser.power b) :=
  .bind .awaited

theorem factor : Opens (Parser.factor b) := by
  refine .peek fun o => ?_
  split
  case h_1 op ho =>
    obtain ⟨k, rfl, ho⟩ := Option.bind_eq_some_iff.mp ho
    exact .inl ⟨k, rfl, beginsExpr_of_signOf? ho⟩
  case h_2 => exact .inr power

theorem bitOr : Opens (Parser.bitOr b) :=
  .bind <| .bind <| .bind <| .bind <| .bind <| .bind .factor

theorem notTest : Opens (Parser.notTest b) :=
  .isAt rfl <| .bind .bitOr

theorem orTest : Opens (Parser.orTest b) :=
  .bind <| .bind .notTest

theorem test : Opens (Parser.test b) :=
  .isAt rfl <| .bind .orTest

theorem starOrNamed (h : Opens b.test) : Opens (Parser.starOrNamed b) :=
  .isAt rfl <| .bind h

theorem exprList (h : Opens b.test) : Opens (Parser.exprList b) :=
  .bind <| .starOrNamed h

theorem ofDepth {i : Nat} : Opens (Below.ofDepth i).test := by
  cases i
  case zero => exact .fail
  case succ => exact .test

end Opens

end Parser
end PyVerify
