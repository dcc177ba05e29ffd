import PyVerify.Parser.Cursor
import PyVerify.Proofs.Token.Order

namespace PyVerify

open Token (Kind Mark)

variable {f : ℕ →o ℕ}

namespace Cursor

variable {c d e : Cursor} {t : Token}

-- The position behind the token before.
def stop (c : Cursor) : Nat :=
  c.previous.stop

-- The tokens ahead are in order, and none is behind the last one.
structure Ascends (f : ℕ →o ℕ) (c : Cursor) : Prop where
  ahead   : ∀ t ∈ c.rest, t.Follows f c.previous
  ordered : Token.Ascend f c.rest
  bounded : ∀ t ∈ c.rest, f t.span.stop ≤ f c.last.stop
  reached : f c.stop ≤ f c.last.stop

theorem ofTokens_ascends {tokens : List Token} (h : Token.Ascend f tokens) : (ofTokens tokens).Ascends f where
  ahead t _ := .of_le <| Nat.zero_le _
  ordered   := h
  bounded t ht := by
    cases hl : tokens.getLast?
    case none =>
      cases List.getLast?_eq_none_iff.mp hl
      cases ht
    case some last => simpa [ofTokens, hl] using h.stop_le_last hl ht
  reached   := f.monotone <| Nat.zero_le _

theorem ofTokens_stop_le {tokens : List Token} {n : Nat} (h : ∀ t ∈ tokens, t.span.stop ≤ n) :
    (ofTokens tokens).last.stop ≤ n := by
  cases hl : tokens.getLast?
  case none       => simp [ofTokens, hl, Span.point, Span.stop]
  case some last  => simpa [ofTokens, hl] using h last (List.mem_of_getLast? hl)

-- A cursor has been moved on, by any number of tokens.
structure Moves (f : ℕ →o ℕ) (c d : Cursor) : Prop where
  start : f c.previous.start ≤ f d.previous.start
  stop  : f c.stop ≤ f d.stop
  last  : d.last = c.last

namespace Moves

theorem refl (c : Cursor) : c.Moves f c :=
  ⟨le_rfl, le_rfl, rfl⟩

theorem trans (h₁ : c.Moves f d) (h₂ : d.Moves f e) : c.Moves f e :=
  ⟨h₁.start.trans h₂.start, h₁.stop.trans h₂.stop, h₂.last.trans h₁.last⟩

end Moves

-- A cursor has been moved over a token.
structure Takes (f : ℕ →o ℕ) (c : Cursor) (t : Token) (d : Cursor) : Prop where
  ahead : c.rest = t :: d.rest
  span  : d.previous = t.span
  moves : c.Moves f d
  apart : t.kind ≠ .dedent → f c.stop ≤ f t.span.start

namespace Takes

variable (h : c.Takes f t d)

include h

theorem here : c.here = t.span := by
  simp [Cursor.here, h.ahead]

theorem kind? : c.kind? = some t.kind := by
  simp [Cursor.kind?, h.ahead]

theorem kind {kind : Kind} (hk : c.kind? = some kind) : t.kind = kind :=
  Option.some.inj <| h.kind?.symm.trans hk

end Takes
end Cursor

namespace Parser

-- Something that is read again and again.
inductive Repeats {α : Type} (f : ℕ →o ℕ) (P : Cursor → α → Cursor → Prop) : Cursor → List α → Cursor → Prop
  | nil (h : c.Moves f d)                         : Repeats f P c [] d
  | cons (h : P c a d) (hs : Repeats f P d as e)  : Repeats f P c (a :: as) e

variable {α β σ : Type} {c : Cursor} {P Q : α → Cursor → Prop} {R : β → Cursor → Prop} {p : Parser α}

-- From a cursor with its tokens in order, a parser comes to one of the same kind; what it gives and where it ends
-- are related.
def Ends (f : ℕ →o ℕ) (c : Cursor) (P : α → Cursor → Prop) (p : Parser α) : Prop :=
  c.Ascends f → ∀ a d, p c = .ok (a, d) → d.Ascends f ∧ P a d

-- What is there has a property, and without it the cursor is moved on at most.
def Optionally (f : ℕ →o ℕ) (P : α → Cursor → Prop) (c : Cursor) (o : Option α) (d : Cursor) : Prop :=
  match o with
  | some a  => P a d
  | none    => c.Moves f d

namespace Repeats

variable {P Q : Cursor → α → Cursor → Prop} {as : List α} {d : Cursor}

theorem mono (h : Repeats f P c as d) (hi : ∀ {c a d}, P c a d → Q c a d) : Repeats f Q c as d := by
  induction h
  case nil h        => exact .nil h
  case cons h _ hs  => exact .cons (hi h) hs

theorem forall_mem {S : α → Prop} (h : Repeats f P c as d) (hi : ∀ {c a d}, P c a d → S a) : ∀ a ∈ as, S a := by
  induction h
  case nil          => exact nofun
  case cons h _ hs  => exact List.forall_mem_cons.mpr ⟨hi h, hs⟩

theorem moves (h : Repeats f P c as d) (hp : ∀ {c a d}, P c a d → c.Moves f d) : c.Moves f d := by
  induction h
  case nil h        => exact h
  case cons h _ hi  => exact (hp h).trans hi

theorem getLast? {a : α} (h : Repeats f P c as d) (ha : as.getLast? = some a) :
    ∃ init c₁ c₂, as = init ++ [a] ∧ Repeats f P c init c₁ ∧ P c₁ a c₂ ∧ c₂.Moves f d := by
  induction h
  case nil => exact nomatch ha
  case cons b c₂ as d hp hs hi =>
    cases as
    case nil =>
      cases ha
      cases hs
      case nil h => exact ⟨[], _, _, rfl, .nil <| .refl _, hp, h⟩
    case cons =>
      obtain ⟨init, c₃, c₄, he, hr, hl⟩ := hi <| List.getLast?_cons_cons ▸ ha
      exact ⟨b :: init, c₃, c₄, congrArg (b :: ·) he, .cons hp hr, hl⟩

end Repeats

namespace Ends

theorem pure {a : α} (h : P a c) : Ends f c P (Pure.pure a) := by
  rintro hc _ _ ⟨⟩
  exact ⟨hc, h⟩

theorem failAt {cause : SyntaxError.Cause} {z : Span} : Ends f c P (Parser.failAt cause z) :=
  nofun

theorem fail {cause : SyntaxError.Cause} : Ends f c P (Parser.fail cause) :=
  nofun

theorem bind {k : α → Parser β} (hp : Ends f c P p) (hk : ∀ a d, P a d → Ends f d R (k a)) :
    Ends f c R (p >>= k) := by
  intro hc b e h
  obtain ⟨⟨a, d⟩, ha, h⟩ := exists_ok_of_bind h
  obtain ⟨hd, ha⟩ := hp hc _ _ ha
  exact hk a d ha hd _ _ h

theorem of_run {a : α} (h : Ends f c P p) (hc : c.Ascends f) (hr : p.run' c = .ok a) : ∃ d, d.Ascends f ∧ P a d := by
  cases hp : p c <;> simp only [StateT.run', hp] at hr <;> cases hr
  exact ⟨_, h hc _ _ hp⟩

theorem map {g : α → β} (hp : Ends f c P p) (hg : ∀ a d, P a d → R (g a) d) : Ends f c R (g <$> p) :=
  .bind hp fun a d ha => .pure (hg a d ha)

theorem mono (h : Ends f c P p) (hi : ∀ a d, P a d → Q a d) : Ends f c Q p :=
  fun hc _ _ he => (h hc _ _ he).imp_right (hi _ _)

section

variable {p q : Parser α}

theorem ite {b : Prop} [Decidable b] (ht : b → Ends f c P p) (hf : ¬b → Ends f c P q) :
    Ends f c P (if b then p else q) := by
  split
  case isTrue h   => exact ht h
  case isFalse h  => exact hf h

-- What looks at the tokens ahead leaves them there.

theorem get {k : Cursor → Parser α} (h : Ends f c P (k c)) : Ends f c P (MonadState.get >>= k) :=
  h

theorem peek {k : Option Kind → Parser α} (h : Ends f c P (k c.kind?)) : Ends f c P (Parser.peek >>= k) :=
  h

theorem here {k : Span → Parser α} (h : Ends f c P (k c.here)) : Ends f c P (Parser.here >>= k) :=
  h

theorem previous {k : Span → Parser α} (h : Ends f c P (k c.previous)) : Ends f c P (Parser.previous >>= k) :=
  h

theorem isAt {kind : Kind} {k : Bool → Parser α} (h : Ends f c P (k (c.kind? == some kind))) :
    Ends f c P (Parser.isAt kind >>= k) :=
  h

theorem ifAt {kind : Kind} (ht : c.kind? = some kind → Ends f c P p) (hf : Ends f c P q) :
    Ends f c P (Parser.isAt kind >>= fun b => if b then p else q) :=
  .isAt <| .ite (fun h => ht <| eq_of_beq h) fun _ => hf

theorem stays {kind : Kind} : Ends f c (fun _ d => d = c) (Parser.isAt kind) :=
  .isAt <| .pure rfl

theorem startsExpr {k : Bool → Parser α} (h : ∀ b, Ends f c P (k b)) : Ends f c P (Parser.startsExpr >>= k) := by
  have hs : Ends f c (fun _ d => d = c) Parser.startsExpr := by
    refine .peek ?_
    split <;> exact .pure rfl
  exact .bind hs <| by rintro b _ rfl; exact h b

end

theorem next : Ends f c (c.Takes f) Parser.next := by
  obtain ⟨previous, _ | ⟨t, rest⟩, last, size⟩ := c
  case nil => exact failAt
  case cons =>
    rintro hc _ _ ⟨⟩
    obtain ⟨ht, -⟩ := List.forall_mem_cons.mp hc.ahead
    obtain ⟨hs, ho⟩ := List.pairwise_cons.mp hc.ordered
    obtain ⟨hl, hb⟩ := List.forall_mem_cons.mp hc.bounded
    exact ⟨⟨hs, ho, hb, hl⟩, rfl, rfl, ⟨ht.start, ht.stop, rfl⟩, ht.apart⟩

theorem expect {kind : Kind} : Ends f c (fun t d => c.Takes f t d ∧ t.kind = kind) (Parser.expect kind) :=
  .bind .next fun _ _ ht => .ite (fun hk => .pure ⟨ht, hk⟩) fun _ => .failAt

theorem ident : Ends f c (fun i d => c.Takes f ⟨.name i.text, i.span⟩ d) Parser.ident := by
  refine .bind .next fun t d ht => ?_
  split
  case h_1 text hk  => exact .pure <| hk ▸ ht
  case h_2          => exact .failAt

theorem accept {kind : Kind} {k : Bool → Parser α}
    (ht : ∀ t d, c.Takes f t d → t.kind = kind → Ends f d P (k true)) (hf : Ends f c P (k false)) :
    Ends f c P (Parser.accept kind >>= k) := by
  have ha : Ends f c (fun b d => b = true ∧ (∃ t, c.Takes f t d ∧ t.kind = kind) ∨ b = false ∧ d = c)
      (Parser.accept kind) := by
    refine .ifAt (fun hk => .bind .next fun t d ht => .pure <| .inl ?_) (.pure <| .inr ⟨rfl, rfl⟩)
    exact ⟨rfl, t, ht, ht.kind hk⟩
  refine .bind ha fun b d hb => ?_
  obtain ⟨rfl, t, h, hk⟩ | ⟨rfl, rfl⟩ := hb
  case inl => exact ht t d h hk
  case inr => exact hf

theorem accepts {kind : Kind} : Ends f c (fun _ d => c.Moves f d) (Parser.accept kind) :=
  .ifAt (fun _ => .bind .next fun _ _ ht => .pure ht.moves) (.pure <| .refl c)

-- The token is known to be next.
theorem acceptAt {kind : Kind} {p q : Parser α} (hk : c.kind? = Option.some kind)
    (ht : ∀ t d, c.Takes f t d → t.kind = kind → Ends f d P p) :
    Ends f c P (Parser.accept kind >>= fun b => if b then p else q) := by
  have ha : Ends f c (fun b d => b = true ∧ ∃ t, c.Takes f t d ∧ t.kind = kind) (Parser.accept kind) := by
    refine .isAt <| .ite (fun _ => .bind .next fun t d ht => .pure ⟨rfl, t, ht, ht.kind hk⟩) fun hn => (hn ?_).elim
    exact beq_iff_eq.mpr hk
  refine .bind ha ?_
  rintro _ d ⟨rfl, t, h, hk⟩
  exact ht t d h hk

theorem ifAccept {kind : Kind} {p q : Parser α} (ht : ∀ t d, c.Takes f t d → t.kind = kind → Ends f d P p)
    (hf : Ends f c P q) : Ends f c P (Parser.accept kind >>= fun b => if b then p else q) :=
  .accept ht hf

protected theorem some {a : α} (h : P a c) : Ends f c (Optionally f P d) (Pure.pure (Option.some a)) :=
  .pure h

protected theorem none (h : d.Moves f c) : Ends f c (Optionally f P d) (Pure.pure Option.none) :=
  .pure h

theorem after {kind : Kind} (h : ∀ t d, c.Takes f t d → t.kind = kind → Ends f d P p) :
    Ends f c (Optionally f P c) (Parser.after kind p) :=
  .ifAccept (fun t d ht hk => .bind (h t d ht hk) fun _ _ ha => .some ha) (.none <| .refl _)

section

variable {P : Cursor → α → Cursor → Prop}

theorem repeatUpTo {step : Parser (Option α)} (h : ∀ c, Ends f c (Optionally f (P c) c) step) (n : Nat) :
    Ends f c (Repeats f P c) (Parser.repeatUpTo step n) := by
  induction n generalizing c
  case zero => exact .fail
  case succ n hi =>
    refine .bind (h c) fun o d ho => ?_
    cases o
    case none => exact .pure <| .nil ho
    case some => exact .bind hi fun _ _ hs => .pure <| .cons ho hs

theorem many {step : Parser (Option α)} (h : ∀ c, Ends f c (Optionally f (P c) c) step) :
    Ends f c (Repeats f P c) (Parser.many step) :=
  .get <| .repeatUpTo h _

-- The first time the parser gives something.
theorem many_some {N : Cursor → Prop} {step : Parser (Option α)} (hn : N c)
    (h : ∀ c, Ends f c (fun o d => Optionally f (P c) c o d ∧ (N c → o ≠ Option.none)) step) :
    Ends f c (fun as d => Repeats f P c as d ∧ as ≠ []) (Parser.many step) := by
  refine .get <| .bind (h c) fun o d ho => ?_
  cases o
  case none => exact (ho.right hn rfl).elim
  case some =>
    refine .bind (.repeatUpTo (fun c => (h c).mono fun _ _ h => h.left) _) fun _ _ hs => .pure ?_
    exact ⟨.cons ho.left hs, nofun⟩

theorem commaTail {stop : Parser Bool} (hs : ∀ c, Ends f c (fun _ d => d = c) stop)
    (h : ∀ c d, c.Moves f d → Ends f d (P c) p) : Ends f c (Repeats f P c) (Parser.commaTail stop p) := by
  refine .many fun c => .ifAccept (fun t d ht _ => .bind (hs d) ?_) (.none <| .refl _)
  rintro b _ rfl
  exact .ite (fun _ => .none ht.moves) fun _ => .bind (h _ _ ht.moves) fun _ _ ha => .some ha

end

section

variable {S : σ → Cursor → Prop} {item : σ → Parser σ} {close : Kind}

theorem foldUpTo (hm : ∀ s c d, S s c → c.Moves f d → S s d) (h : ∀ s c, S s c → Ends f c S (item s)) (n : Nat) {s : σ}
    (hs : S s c) : Ends f c S (Parser.foldUpTo close item n s) := by
  induction n generalizing s c
  case zero => exact .fail
  case succ n hi =>
    refine .ifAt (fun _ => .pure hs) <| .bind (h s c hs) fun s d hs => ?_
    exact .ifAccept (fun _ _ ht _ => hi <| hm _ _ _ hs ht.moves) (.pure hs)

theorem foldItems (hm : ∀ s c d, S s c → c.Moves f d → S s d) (h : ∀ s c, S s c → Ends f c S (item s)) {s : σ}
    (hs : S s c) : Ends f c S (Parser.foldItems close item s) :=
  .get <| .foldUpTo hm h _ hs

end

theorem skipNewlines : Ends f c (fun _ d => c.Moves f d) Parser.skipNewlines := by
  refine .bind (.many (P := fun c _ d => c.Moves f d) fun c => ?_) fun _ _ h => .pure (h.moves id)
  exact .ifAccept (fun _ _ ht _ => .some ht.moves) (.none <| .refl _)

end Ends
end Parser
end PyVerify
