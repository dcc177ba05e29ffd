import Mathlib.Data.Option.Basic
import PyVerify.Parser.Cursor
import PyVerify.Proofs.Token.Layout
import PyVerify.Proofs.Tree.Recast

namespace PyVerify

open Token (Kind Keyword Mark)

namespace Token.Kind

def isName : Kind → Bool
  | name _  => true
  | _       => false

-- The words that a clause of the statement before begins with.
def isClause : Kind → Bool
  | .keyword .kwElif | .keyword .kwElse | .keyword .kwExcept | .keyword .kwFinally  => true
  | _                                                                               => false

def isPlain (k : Kind) : Bool :=
  !k.isLayout && !k.isName && !k.opensBracket && !k.closesBracket && !k.isClause && k ≠ Mark.colon

def recast (f : Recasting) : Kind → Kind
  | name text => name (f.name text)
  | k         => k

-- What a token does to the number of open brackets, and to whether something stands on the line and no colon ends it.
inductive Turns : Kind → Nat → Bool → Nat → Bool → Prop
  | plain {k : Kind} (h : k.isPlain)          : Turns k m a m true
  | opens {k : Kind} (h : k.opensBracket)     : Turns k m a (m + 1) true
  | closes {k : Kind} (h : k.closesBracket)   : Turns k (m + 1) a m true
  | colon                                     : Turns Mark.colon m a m false
  | clause {k : Kind} (h : k.isClause)        : Turns k m true m true

inductive Goes : Kind → Nat → Bool → Nat → Bool → Prop
  | turn {k : Kind} (h : k.Turns m a n b) : Goes k m a n b
  | name                                  : Goes (.name text) m a m true

-- The signs that mean something in a place; names and layout are none.
structure Signs {γ : Type} (op? : Kind → Option γ) : Prop where
  name  : ∀ x, op? (.name x) = none
  plain : ∀ k w, op? k = some w → k.isPlain

variable {f g : Recasting} {k l : Kind} {x : String}

theorem exists_name (h : k.isName) : ∃ x, k = .name x := by
  cases k
  case name x => exact ⟨x, rfl⟩
  all_goals cases h

theorem recast_of_not_isName (h : k.isName = false) : k.recast f = k := by
  cases k <;> first | rfl | cases h

theorem isName_recast : (k.recast f).isName = k.isName := by
  cases k <;> rfl

theorem eq_of_recast (h : k.recast f = l.recast g) (hk : k.isName = false) : l = k := by
  have hl : l.isName = false := by rw [← isName_recast (f := g), ← h, isName_recast, hk]
  rwa [recast_of_not_isName hk, recast_of_not_isName hl, eq_comm] at h

theorem name_of_recast (h : (Kind.name x).recast f = l.recast g) : ∃ y, l = .name y ∧ f.name x = g.name y := by
  cases l
  case name y => exact ⟨y, rfl, Kind.name.inj h⟩
  all_goals cases h

end Token.Kind

-- Names that are the same when they are read anew are the same already.
def Faithful (f g : Recasting) : Prop :=
  ∀ x y, f.name x = g.name y → x = y

-- Two tokens are the same when they are read anew. Only where all names are kept may a word open a statement.
structure Kin (f g : Recasting) (t u : Token) : Prop where
  span : f.place t.span = g.place u.span
  kind : t.kind.recast f = u.kind.recast g
  soft : ∀ word ∈ ["match", "type"], t.kind = .name word → Faithful f g

theorem Kin.kind_eq {f g : Recasting} {t u : Token} {k : Kind} (h : Kin f g t u) (ht : t.kind = k) (hk : k.isName = false) : u.kind = k :=
  Kind.eq_of_recast (ht ▸ h.kind) hk

theorem Kin.kind_eq_name_iff {f g : Recasting} {t u : Token} {x : String} (h : Kin f g t u) (hf : Faithful f g) :
    t.kind = .name x ↔ u.kind = .name x := by
  have hk := h.kind
  constructor
  case mp =>
    intro ht
    obtain ⟨y, hu, hn⟩ := Kind.name_of_recast (ht ▸ hk)
    rw [hu, hf x y hn]
  case mpr =>
    intro hu
    obtain ⟨y, ht, hn⟩ := Kind.name_of_recast (hu ▸ hk.symm)
    rw [ht, hf y x hn.symm]

namespace Cursor

variable {f g : Recasting} {c d : Cursor}

-- The cursor behind the next token.
def behind (c : Cursor) (t : Token) (ts : List Token) : Cursor :=
  { c with previous := t.span, rest := ts }

theorem exists_of_kind? {k : Kind} (h : c.kind? = some k) : ∃ t ts, c.rest = t :: ts ∧ t.kind = k := by
  obtain ⟨t, ht, hk⟩ := Option.map_eq_some_iff.mp h
  obtain ⟨ts, hr⟩ := List.head?_eq_some_iff.mp ht
  exact ⟨t, ts, hr, hk⟩

theorem kind?_behind {t : Token} {ts : List Token} (h : c.rest = t :: ts) : (c.behind t ts).kind? = c.secondKind? := by
  simp [kind?, secondKind?, behind, h, List.head?_eq_getElem?]

theorem secondKind?_behind {t : Token} {ts : List Token} (h : c.rest = t :: ts) : (c.behind t ts).secondKind? = c.thirdKind? := by
  simp [thirdKind?, secondKind?, behind, h]

end Cursor

-- The next tokens are the same when they are read anew, or there is none.
def Heads (f g : Recasting) (c d : Cursor) : Prop :=
  Option.Rel (Kin f g) c.rest.head? d.rest.head?

namespace Heads

variable {f g : Recasting} {c d : Cursor} {k : Kind}

theorem kind? (h : Heads f g c d) : c.kind?.map (Kind.recast f) = d.kind?.map (Kind.recast g) := by
  unfold Heads at h
  simp only [Cursor.kind?]
  cases hc : c.rest.head? <;> cases hd : d.rest.head? <;> rw [hc, hd] at h <;> cases h
  case none.none => rfl
  case some.some hk => exact congrArg some hk.kind

-- The same token is next, unless it is a name.
theorem kind?_cases (h : Heads f g c d) : c.kind? = d.kind? ∧ (∀ x, c.kind? ≠ some (.name x)) ∨
    ∃ x y, c.kind? = some (.name x) ∧ d.kind? = some (.name y) ∧ f.name x = g.name y := by
  have he := kind? h
  obtain hc | ⟨k, hc⟩ := Option.eq_none_or_eq_some c.kind? <;> rw [hc] at he ⊢
  case inl => exact .inl ⟨(Option.map_eq_none_iff.mp he.symm).symm, nofun⟩
  case inr =>
    obtain ⟨l, hd, hl⟩ := Option.map_eq_some_iff.mp he.symm
    rw [hd]
    cases hn : k.isName
    case false => exact .inl ⟨by rw [Kind.eq_of_recast hl.symm hn], by rintro x ⟨⟩; cases hn⟩
    case true =>
      obtain ⟨x, rfl⟩ := Kind.exists_name hn
      obtain ⟨y, rfl, hx⟩ := Kind.name_of_recast hl.symm
      exact .inr ⟨x, y, rfl, rfl, hx⟩

theorem kind?_eq_some_iff (h : Heads f g c d) (hk : k.isName = false) : c.kind? = some k ↔ d.kind? = some k := by
  obtain ⟨he, -⟩ | ⟨x, y, hc, hd, -⟩ := kind?_cases h
  case inl => rw [he]
  case inr =>
    rw [hc, hd]
    refine iff_of_false ?_ ?_ <;> rintro ⟨⟩ <;> cases hk

theorem kind?_eq_name_iff (h : Heads f g c d) : (∃ x, c.kind? = some (.name x)) ↔ ∃ y, d.kind? = some (.name y) := by
  obtain ⟨he, hn⟩ | ⟨x, y, hc, hd, -⟩ := kind?_cases h
  case inl => rw [he]
  case inr => exact iff_of_true ⟨x, hc⟩ ⟨y, hd⟩

theorem next {t : Token} {ts : List Token} (h : Heads f g c d) (hc : c.rest = t :: ts) : ∃ u us, d.rest = u :: us ∧ Kin f g t u := by
  unfold Heads at h
  rw [hc] at h
  cases hd : d.rest <;> rw [hd] at h <;> cases h
  case cons hk => exact ⟨_, _, rfl, hk⟩

theorem taken (h : Heads f g c d) (hc : c.kind? = some k) :
    ∃ t ts u us, c.rest = t :: ts ∧ d.rest = u :: us ∧ t.kind = k ∧ Kin f g t u := by
  obtain ⟨t, ts, hr, rfl⟩ := Cursor.exists_of_kind? hc
  obtain ⟨u, us, hd, hk⟩ := next h hr
  exact ⟨t, ts, u, us, hr, hd, rfl, hk⟩

-- A word that may open a statement is the same word.
theorem soft {word : String} (h : Heads f g c d) (hw : word ∈ ["match", "type"]) (hc : c.kind? = some (.name word)) :
    Faithful f g ∧ d.kind? = some (.name word) := by
  obtain ⟨t, ts, u, us, -, hr, ht, hk⟩ := taken h hc
  obtain ⟨y, hu, hn⟩ := Kind.name_of_recast (ht ▸ hk.kind)
  have hf := hk.soft word hw ht
  exact ⟨hf, by simp [Cursor.kind?, hr, hu, hf _ _ hn]⟩

end Heads

-- Pairs of places in two token lists that parsers can be run at side by side, within a line: by the number of open
-- brackets, and by whether something stands on the line in front and its last token is no colon.
structure Bridge (f g : Recasting) where
  rel       : Nat → Bool → Cursor → Cursor → Prop
  head      : ∀ {m a c d}, rel m a c d → Heads f g c d
  step      : ∀ {m a c d n b t u ts us}, rel m a c d → c.rest = t :: ts → d.rest = u :: us → t.kind.Goes m a n b →
    rel n b (c.behind t ts) (d.behind u us)
  loosen    : ∀ {m c d}, rel m true c d → rel m false c d
  previous  : ∀ {m a c d}, rel m a c d → f.place c.previous = g.place d.previous
  last      : ∀ {m a c d}, rel m a c d → f.place c.last = g.place d.last
  size      : ∀ {m a c d}, rel m a c d → c.size ≤ d.size
  bounded   : ∀ {m a c d}, rel m a c d → c.rest.length ≤ c.size ∧ d.rest.length ≤ d.size

namespace Parser

variable {α β γ δ : Type} {S S₁ S₂ S₃ : Cursor → Cursor → Prop} {V V₁ : α → β → Prop} {W : γ → δ → Prop}
variable {p p' : Parser α} {q q' : Parser β}

theorem ok_of_bind {k : α → Parser γ} {c e : Cursor} {r : γ} (h : (p >>= k) c = .ok (r, e)) :
    ∃ a d, p c = .ok (a, d) ∧ k a d = .ok (r, e) := by
  obtain ⟨⟨a, d⟩, hp, hk⟩ := exists_ok_of_bind h
  exact ⟨a, d, hp, hk⟩

-- From cursors that belong together, where the first parser comes to an end, so does the second; what they give and
-- where they end belong together.
def Tracks (S : Cursor → Cursor → Prop) (V : α → β → Prop) (S' : Cursor → Cursor → Prop) (p : Parser α) (q : Parser β) : Prop :=
  ∀ c d, S c d → ∀ a c', p c = .ok (a, c') → ∃ b d', q d = .ok (b, d') ∧ V a b ∧ S' c' d'

-- The kind of the next token is known.
def Ahead (o : Option Kind) (S : Cursor → Cursor → Prop) (c d : Cursor) : Prop :=
  S c d ∧ c.kind? = o

namespace Tracks

theorem pure {a : α} {b : β} (h : V a b) : Tracks S V S (Pure.pure a) (Pure.pure b) := by
  rintro c d hs _ _ ⟨⟩
  exact ⟨b, d, rfl, h, hs⟩

theorem failAt {cause : SyntaxError.Cause} {z : Span} : Tracks S V S₁ (Parser.failAt cause z) q :=
  fun _ _ _ => nofun

theorem fail {cause : SyntaxError.Cause} : Tracks S V S₁ (Parser.fail cause) q :=
  fun _ _ _ => nofun

theorem bind {k : α → Parser γ} {l : β → Parser δ} (hp : Tracks S V S₁ p q) (hk : ∀ a b, V a b → Tracks S₁ W S₂ (k a) (l b)) :
    Tracks S W S₂ (p >>= k) (q >>= l) := by
  intro c d hs r c₂ h
  obtain ⟨a, c₁, hp', h⟩ := ok_of_bind h
  obtain ⟨b, d₁, hq, hv, hs⟩ := hp c d hs a c₁ hp'
  obtain ⟨s, d₂, hl, hw, hs⟩ := hk a b hv c₁ d₁ hs r c₂ h
  refine ⟨s, d₂, ?_, hw, hs⟩
  change (q d >>= fun (b, d) => l b d) = _
  rw [hq]
  exact hl

theorem map {f g : Recasting} [Recast α] {p q : Parser α} (h : Tracks S (Same f g) S₁ p q) :
    Tracks S (Same f g) S₁ (some <$> p) (some <$> q) := by
  rw [← bind_pure_comp, ← bind_pure_comp]
  exact bind h fun a b hab => pure (by simp_all)

theorem before (h : Tracks S₁ V S₂ p q) (hs : ∀ c d, S c d → S₁ c d) : Tracks S V S₂ p q :=
  fun c d hc => h c d (hs c d hc)

theorem behind (h : Tracks S V S₁ p q) (hs : ∀ c d, S₁ c d → S₂ c d) : Tracks S V S₂ p q := by
  intro c d hc a c' hp
  obtain ⟨b, d', hq, hv, hc'⟩ := h c d hc a c' hp
  exact ⟨b, d', hq, hv, hs _ _ hc'⟩

theorem seen {o : Option Kind} (h : Tracks S V S₁ p q) : Tracks (Ahead o S) V S₁ p q :=
  h.before fun _ _ => And.left

theorem ite {x y : Bool} (hx : x = y) (ht : Tracks S V S₁ p q) (hf : Tracks S V S₁ p' q') :
    Tracks S V S₁ (if x then p else p') (if y then q else q') := by
  subst hx
  split
  case isTrue   => exact ht
  case isFalse  => exact hf

theorem iteProp {x y : Prop} [Decidable x] [Decidable y] (h : x ↔ y) (ht : x → Tracks S V S₁ p q) (hf : Tracks S V S₁ p' q') :
    Tracks S V S₁ (if x then p else p') (if y then q else q') := by
  split
  case isTrue hx =>
    rw [if_pos (h.mp hx)]
    exact ht hx
  case isFalse hx =>
    rw [if_neg (h.not.mp hx)]
    exact hf

theorem get {k : Cursor → Parser α} {l : Cursor → Parser β}
    (h : ∀ c d, S c d → Tracks (fun x y => x = c ∧ y = d) V S₁ (k c) (l d)) :
    Tracks S V S₁ (MonadState.get >>= k) (MonadState.get >>= l) :=
  fun c d hs => h c d hs c d ⟨rfl, rfl⟩

theorem repeatUpTo {f g : Recasting} [Recast α] {step step' : Parser (Option α)} (h : Tracks S (Same f g) S step step')
    {n n' : Nat} (hn : n ≤ n') : Tracks S (Same f g) S (Parser.repeatUpTo step n) (Parser.repeatUpTo step' n') := by
  induction n generalizing n'
  case zero => exact .fail
  case succ n hi =>
    obtain ⟨n', rfl⟩ := Nat.exists_eq_add_of_le' (Nat.lt_of_lt_of_le n.succ_pos hn)
    refine .bind h fun o o' ho => ?_
    cases o <;> cases o'
    case none.none => exact .pure rfl
    case some.some =>
      refine .bind (hi <| Nat.le_of_succ_le_succ hn) fun as bs hs => .pure ?_
      simp_all
    all_goals cases ho

theorem many {f g : Recasting} [Recast α] {step step' : Parser (Option α)} (h : Tracks S (Same f g) S step step')
    (hs : ∀ c d, S c d → c.size ≤ d.size) : Tracks S (Same f g) S (Parser.many step) (Parser.many step') :=
  .get fun c d hc => (repeatUpTo h <| Nat.succ_le_succ <| hs c d hc).before <| by rintro _ _ ⟨rfl, rfl⟩; exact hc

theorem foldUpTo {f g : Recasting} {σ : Type} [Recast σ] {close : Kind} {item item' : σ → Parser σ} {n n' : Nat}
    (hc : Tracks S Eq S (Parser.isAt close) (Parser.isAt close))
    (ha : Tracks S Eq S (Parser.accept Mark.comma) (Parser.accept Mark.comma))
    (h : ∀ s s', Same f g s s' → Tracks S (Same f g) S (item s) (item' s')) (hn : n ≤ n') {s s' : σ} (hs : Same f g s s') :
    Tracks S (Same f g) S (Parser.foldUpTo close item n s) (Parser.foldUpTo close item' n' s') := by
  induction n generalizing n' s s'
  case zero => exact .fail
  case succ n hi =>
    obtain ⟨n', rfl⟩ := Nat.exists_eq_add_of_le' (Nat.lt_of_lt_of_le n.succ_pos hn)
    refine .bind hc fun x y hx => .ite hx (.pure hs) <| .bind (h s s' hs) fun t t' ht => .bind ha fun x y hx => ?_
    exact .ite hx (hi (Nat.le_of_succ_le_succ hn) ht) (.pure ht)

-- A token that is next on both sides or on neither.

theorem bind_eq {c d : Cursor} {x : α} {l : α → Parser β} (h : p c = .ok (x, d)) : (p >>= l) c = l x d := by
  change (p c >>= fun (x, d) => l x d) = _
  rw [h]
  rfl

theorem accept_eq_true {k : Kind} {c : Cursor} {t : Token} {ts : List Token} (hc : c.rest = t :: ts) (hk : t.kind = k) :
    Parser.accept k c = .ok (true, c.behind t ts) := by
  obtain ⟨previous, rest, last, size⟩ := c
  cases hc
  change (if some t.kind == some k then _ else _ : Parser Bool) _ = _
  rw [if_pos (by simpa using hk)]
  rfl

theorem accept_eq_false {k : Kind} {c : Cursor} (hk : c.kind? ≠ some k) : Parser.accept k c = .ok (false, c) := by
  change (if c.kind? == some k then _ else _ : Parser Bool) c = _
  rw [if_neg (by simpa using hk)]
  rfl

theorem isAtOf {k : Kind} (hs : ∀ c d, S c d → (c.kind? = some k ↔ d.kind? = some k)) {l : Bool → Parser α} {l' : Bool → Parser β}
    (ht : Tracks (Ahead (some k) S) V S₁ (l true) (l' true))
    (hf : Tracks (fun c d => S c d ∧ c.kind? ≠ some k) V S₁ (l false) (l' false)) :
    Tracks S V S₁ (Parser.isAt k >>= l) (Parser.isAt k >>= l') := by
  intro c d hc
  change ∀ x c', l (c.kind? == some k) c = .ok (x, c') → ∃ y d', l' (d.kind? == some k) d = .ok (y, d') ∧ _
  by_cases hk : c.kind? = some k
  case pos =>
    rw [beq_iff_eq.mpr hk, beq_iff_eq.mpr <| (hs c d hc).mp hk]
    exact ht c d ⟨hc, hk⟩
  case neg =>
    rw [beq_eq_false_iff_ne.mpr hk, beq_eq_false_iff_ne.mpr <| (hs c d hc).not.mp hk]
    exact hf c d ⟨hc, hk⟩

theorem acceptOf {k : Kind} (hs : ∀ c d, S c d → (c.kind? = some k ↔ d.kind? = some k))
    (hn : ∀ {c d t ts u us}, S c d → c.rest = t :: ts → d.rest = u :: us → t.kind = k → S₁ (c.behind t ts) (d.behind u us))
    {l : Bool → Parser α} {l' : Bool → Parser β} (ht : Tracks S₁ V S₂ (l true) (l' true)) (hf : Tracks S V S₂ (l false) (l' false)) :
    Tracks S V S₂ (Parser.accept k >>= l) (Parser.accept k >>= l') := by
  intro c d hc
  by_cases hk : c.kind? = some k
  case pos =>
    obtain ⟨t, ts, hr, rfl⟩ := Cursor.exists_of_kind? hk
    obtain ⟨u, us, hr', hu⟩ := Cursor.exists_of_kind? <| (hs c d hc).mp hk
    rw [bind_eq (accept_eq_true hr rfl), bind_eq (accept_eq_true hr' hu)]
    exact ht _ _ <| hn hc hr hr' rfl
  case neg =>
    rw [bind_eq (accept_eq_false hk), bind_eq (accept_eq_false <| (hs c d hc).not.mp hk)]
    exact hf c d hc

theorem nextOf {f g : Recasting} (hs : ∀ c d, S c d → Heads f g c d) {l : Token → Parser α} {l' : Token → Parser β}
    (h : ∀ t u, Kin f g t u → Tracks (fun c d => ∃ c₀ d₀ ts us, S c₀ d₀ ∧ c₀.rest = t :: ts ∧ d₀.rest = u :: us ∧
      c = c₀.behind t ts ∧ d = d₀.behind u us) V S₁ (l t) (l' u)) :
    Tracks S V S₁ (Parser.next >>= l) (Parser.next >>= l') := by
  rintro ⟨previous, _ | ⟨t, ts⟩, last, size⟩ ⟨previous', rest', last', size'⟩ hc
  case nil => exact nofun
  case cons =>
    obtain ⟨u, us, rfl, hk⟩ := (hs _ _ hc).next rfl
    exact h t u hk _ _ ⟨_, _, ts, us, hc, rfl, rfl, rfl, rfl⟩

theorem expectOf {f g : Recasting} {k : Kind} (hk : k.isName = false) (hs : ∀ c d, S c d → Heads f g c d)
    (hn : ∀ {c d t ts u us}, S c d → c.rest = t :: ts → d.rest = u :: us → t.kind = k → S₁ (c.behind t ts) (d.behind u us)) :
    Tracks S (Kin f g) S₁ (Parser.expect k) (Parser.expect k) := by
  refine nextOf hs fun t u ht => ?_
  split
  case isFalse => exact failAt
  case isTrue hk' =>
    rw [if_pos (ht.kind_eq hk' hk)]
    refine (pure ht).before ?_
    rintro _ _ ⟨c, d, ts, us, hc, hr, hr', rfl, rfl⟩
    exact hn hc hr hr' hk'

end Tracks

-- The second parser comes to an end as well if the first one ends in certain places.
def TracksTo (E : Cursor → Prop) (S : Cursor → Cursor → Prop) (V : α → β → Prop) (S' : Cursor → Cursor → Prop) (p : Parser α)
    (q : Parser β) : Prop :=
  ∀ c d, S c d → ∀ a c', p c = .ok (a, c') → E c' → ∃ b d', q d = .ok (b, d') ∧ V a b ∧ S' c' d'

variable {E E' : Cursor → Prop}

theorem Tracks.to (h : Tracks S V S₁ p q) : TracksTo E S V S₁ p q :=
  fun c d hs a c' hp _ => h c d hs a c' hp

namespace TracksTo

theorem tracks (h : TracksTo (fun _ => True) S V S₁ p q) : Tracks S V S₁ p q :=
  fun c d hs a c' hp => h c d hs a c' hp trivial

theorem before (h : TracksTo E S₁ V S₂ p q) (hs : ∀ c d, S c d → S₁ c d) : TracksTo E S V S₂ p q :=
  fun c d hc => h c d (hs c d hc)

-- Where the first part must end follows from what the second part does.
theorem bind {k : α → Parser γ} {l : β → Parser δ} (hp : TracksTo E S V S₁ p q)
    (hk : ∀ a b, V a b → TracksTo E' S₁ W S₂ (k a) (l b)) (he : ∀ a c r e, k a c = .ok (r, e) → E' e → E c) :
    TracksTo E' S W S₂ (p >>= k) (q >>= l) := by
  intro c d hs r c₂ h hr
  obtain ⟨a, c₁, hp', h⟩ := ok_of_bind h
  obtain ⟨b, d₁, hq, hv, hs⟩ := hp c d hs a c₁ hp' (he a c₁ r c₂ h hr)
  obtain ⟨s, d₂, hl, hw, hs⟩ := hk a b hv c₁ d₁ hs r c₂ h hr
  refine ⟨s, d₂, ?_, hw, hs⟩
  change (q d >>= fun (b, d) => l b d) = _
  rw [hq]
  exact hl

theorem bindTo {k : α → Parser γ} {l : β → Parser δ} (hp : Tracks S V S₁ p q) (hk : ∀ a b, V a b → TracksTo E S₁ W S₂ (k a) (l b)) :
    TracksTo E S W S₂ (p >>= k) (q >>= l) :=
  bind (show TracksTo (fun _ => True) S V S₁ p q from hp.to) hk fun _ _ _ _ _ _ => trivial

theorem ite {x y : Bool} (hx : x = y) (ht : TracksTo E S V S₁ p q) (hf : TracksTo E S V S₁ p' q') :
    TracksTo E S V S₁ (if x then p else p') (if y then q else q') := by
  subst hx
  split
  case isTrue   => exact ht
  case isFalse  => exact hf

theorem repeatUpTo_end {step : Parser (Option α)} {c d : Cursor} {as : List α} {n : Nat} (hc : step c = .ok (none, c))
    (h : Parser.repeatUpTo step n c = .ok (as, d)) : d = c := by
  cases n
  case zero => cases h
  case succ =>
    obtain ⟨_, _, hs, h⟩ := ok_of_bind h
    rw [hc] at hs
    cases hs
    cases h
    rfl

-- Where it may not end, a parser that is repeated takes nothing more.
theorem repeatUpTo {f g : Recasting} [Recast α] {step step' : Parser (Option α)} (h : TracksTo E S (Same f g) S step step')
    (he : ∀ c, ¬E c → step c = .ok (none, c)) {n n' : Nat} (hn : n ≤ n') :
    TracksTo E S (Same f g) S (Parser.repeatUpTo step n) (Parser.repeatUpTo step' n') := by
  induction n generalizing n'
  case zero => exact Tracks.to .fail
  case succ n hi =>
    obtain ⟨n', rfl⟩ := Nat.exists_eq_add_of_le' (Nat.lt_of_lt_of_le n.succ_pos hn)
    refine .bind h (fun o o' ho => ?_) fun o c as e hk hr => ?_
    case refine_1 =>
      cases o <;> cases o'
      case none.none => exact Tracks.to <| .pure rfl
      case some.some =>
        refine .bind (hi <| Nat.le_of_succ_le_succ hn) (fun as bs hs => Tracks.to <| .pure ?_) ?_
        case refine_1 => simp_all
        case refine_2 =>
          rintro _ _ _ _ ⟨⟩
          exact id
      all_goals cases ho
    case refine_2 =>
      cases o
      case none =>
        cases hk
        exact hr
      case some =>
        obtain ⟨_, _, hk, h⟩ := ok_of_bind hk
        cases h
        by_contra hc
        exact hc <| repeatUpTo_end (he c hc) hk ▸ hr

theorem many {f g : Recasting} [Recast α] {step step' : Parser (Option α)} (h : TracksTo E S (Same f g) S step step')
    (he : ∀ c, ¬E c → step c = .ok (none, c)) (hs : ∀ c d, S c d → c.size ≤ d.size) :
    TracksTo E S (Same f g) S (Parser.many step) (Parser.many step') :=
  fun c d hc => repeatUpTo h he (Nat.succ_le_succ <| hs c d hc) c d hc

end TracksTo
end Parser

theorem Token.Kind.Turns.not_isName {k : Kind} {m n : Nat} {a b : Bool} (h : k.Turns m a n b) : k.isName = false := by
  cases h
  case plain h => simp_all [isPlain]
  case opens h | closes h | clause h => cases k <;> first | rfl | cases h
  case colon => rfl

theorem Token.Kind.Goes.not_isLayout {k : Kind} {m n : Nat} {a b : Bool} (h : k.Goes m a n b) : k.isLayout = false := by
  obtain ⟨h⟩ | _ := h
  case name => rfl
  case turn =>
    cases h
    case plain h => simp_all [isPlain]
    case opens h | closes h | clause h => cases k <;> first | rfl | cases h
    case colon => rfl

namespace Bridge

variable {f g : Recasting} {B : Bridge f g} {m n : Nat} {a : Bool} {k : Kind} {c d : Cursor}

-- The same token stands behind the next one.
theorem secondKind?_eq_some_iff {n : Nat} {b : Bool} {t u : Token} {ts us : List Token} (h : B.rel m a c d) (hc : c.rest = t :: ts)
    (hd : d.rest = u :: us) (hg : t.kind.Goes m a n b) (hk : k.isName = false) :
    c.secondKind? = some k ↔ d.secondKind? = some k := by
  have hs := (B.head <| B.step h hc hd hg).kind?_eq_some_iff hk
  rwa [Cursor.kind?_behind hc, Cursor.kind?_behind hd] at hs

-- Two names are next, and one of two other tokens stands behind them.
theorem twoNames_iff {l : Kind} (h : B.rel m a c d) (hk : k.isName = false) (hl : l.isName = false) :
    (∃ x, c.kind? = some (.name x)) ∧ (∃ y, c.secondKind? = some (.name y)) ∧ (c.thirdKind? = some k ∨ c.thirdKind? = some l) ↔
      (∃ x, d.kind? = some (.name x)) ∧ (∃ y, d.secondKind? = some (.name y)) ∧ (d.thirdKind? = some k ∨ d.thirdKind? = some l) := by
  rw [← (B.head h).kind?_eq_name_iff]
  refine and_congr_right fun ⟨x, hc⟩ => ?_
  obtain ⟨t, ts, u, us, hr, hr', ht, -⟩ := (B.head h).taken hc
  have hs : B.rel m true (c.behind t ts) (d.behind u us) := B.step h hr hr' (ht ▸ .name)
  rw [← Cursor.kind?_behind hr, ← Cursor.kind?_behind hr', ← Cursor.secondKind?_behind hr, ← Cursor.secondKind?_behind hr',
    ← (B.head hs).kind?_eq_name_iff]
  refine and_congr_right fun ⟨y, hc⟩ => ?_
  obtain ⟨t, ts, u, us, hr, hr', ht, -⟩ := (B.head hs).taken hc
  have hg : t.kind.Goes m true m true := ht ▸ .name
  exact or_congr (secondKind?_eq_some_iff hs hr hr' hg hk) (secondKind?_eq_some_iff hs hr hr' hg hl)

theorem loosen_to (h : B.rel m true c d) (a : Bool) : B.rel m a c d := by
  cases a
  case false  => exact B.loosen h
  case true   => exact h

end Bridge

-- The next token was taken.
def Cursor.Took {f g : Recasting} (B : Bridge f g) (m : Nat) (a : Bool) (k : Kind) (c d : Cursor) : Prop :=
  ∀ n b, k.Goes m a n b → B.rel n b c d

namespace Parser.TracksTo

variable {f g : Recasting} {B : Bridge f g} {α β : Type} {E : Cursor → Prop} {V : α → β → Prop} {S : Cursor → Cursor → Prop}
variable {m : Nat} {a : Bool}

theorem peek {l : Option Kind → Parser α} {l' : Option Kind → Parser β}
    (hk : ∀ o, (∀ x, o ≠ some (.name x)) → TracksTo E (Ahead o (B.rel m a)) V S (l o) (l' o))
    (hn : ∀ x y, f.name x = g.name y → TracksTo E (Ahead (some (.name x)) (B.rel m a)) V S (l <| some <| .name x) (l' <| some <| .name y)) :
    TracksTo E (B.rel m a) V S (Parser.peek >>= l) (Parser.peek >>= l') := by
  intro c d hs
  change ∀ x c', l c.kind? c = .ok (x, c') → E c' → ∃ y d', l' d.kind? d = .ok (y, d') ∧ _
  obtain ⟨he, hc⟩ | ⟨x, y, hc, hd, hx⟩ := (B.head hs).kind?_cases
  case inl => exact he ▸ hk c.kind? hc c d ⟨hs, rfl⟩
  case inr =>
    rw [hc, hd]
    exact hn x y hx c d ⟨hs, hc⟩

theorem here {l : Span → Parser α} {l' : Span → Parser β} (h : ∀ z w, f.place z = g.place w → TracksTo E (B.rel m a) V S (l z) (l' w)) :
    TracksTo E (B.rel m a) V S (Parser.here >>= l) (Parser.here >>= l') := by
  intro c d hs
  refine h _ _ ?_ c d hs
  have hh := B.head hs
  unfold Heads at hh
  simp only [Cursor.here]
  cases hc : c.rest <;> cases hd : d.rest <;> rw [hc, hd] at hh <;> cases hh
  case nil.nil        => exact B.last hs
  case cons.cons hk   => exact hk.span

end Parser.TracksTo

namespace Parser.Tracks

variable {f g : Recasting} {B : Bridge f g} {α β : Type} {V : α → β → Prop} {S : Cursor → Cursor → Prop}
variable {m n : Nat} {a b : Bool} {k : Kind} {p p' : Parser α} {q q' : Parser β}

theorem loosen (h : Tracks S V (B.rel m true) p q) : Tracks S V (B.rel m a) p q :=
  h.behind fun _ _ hs => B.loosen_to hs a

theorem isAt (hk : k.isName = false) : Tracks (B.rel m a) Eq (B.rel m a) (Parser.isAt k) (Parser.isAt k) := by
  rintro c d hs _ _ ⟨⟩
  refine ⟨_, _, rfl, ?_, hs⟩
  rw [Bool.eq_iff_iff, beq_iff_eq, beq_iff_eq]
  exact (B.head hs).kind?_eq_some_iff hk

theorem isAtAhead {o : Option Kind} (hk : k.isName = false) :
    Tracks (Ahead o (B.rel m a)) Eq (Ahead o (B.rel m a)) (Parser.isAt k) (Parser.isAt k) := by
  intro c d hs x c' hp
  obtain ⟨y, d', hq, hv, -⟩ := isAt hk c d hs.left x c' hp
  cases hp
  cases hq
  exact ⟨_, _, rfl, hv, hs⟩

theorem isAtThen (hk : k.isName = false) {l : Bool → Parser α} {l' : Bool → Parser β}
    (ht : Tracks (Ahead (some k) (B.rel m a)) V S (l true) (l' true)) (hf : Tracks (B.rel m a) V S (l false) (l' false)) :
    Tracks (B.rel m a) V S (Parser.isAt k >>= l) (Parser.isAt k >>= l') :=
  isAtOf (fun _ _ hs => (B.head hs).kind?_eq_some_iff hk) ht <| hf.before fun _ _ => And.left

theorem ifAt (hk : k.isName = false) (ht : Tracks (Ahead (some k) (B.rel m a)) V S p q) (hf : Tracks (B.rel m a) V S p' q') :
    Tracks (B.rel m a) V S (Parser.isAt k >>= fun x => if x then p else p') (Parser.isAt k >>= fun x => if x then q else q') :=
  isAtThen hk ht hf

-- What comes behind a token depends on the token.
theorem next {l : Token → Parser α} {l' : Token → Parser β} (h : ∀ t u, Kin f g t u → Tracks (Cursor.Took B m a t.kind) V S (l t) (l' u)) :
    Tracks (B.rel m a) V S (Parser.next >>= l) (Parser.next >>= l') := by
  refine nextOf (fun _ _ => B.head) fun t u hk => (h t u hk).before ?_
  rintro _ _ ⟨c, d, ts, us, hc, hr, hr', rfl, rfl⟩ n b hg
  exact B.step hc hr hr' hg

theorem took (h : Tracks (B.rel n b) V S p q) (hk : k.Turns m a n b) : Tracks (Cursor.Took B m a k) V S p q :=
  h.before fun _ _ hs => hs n b (.turn hk)

theorem nextGoes (h : k.Goes m a n b) :
    Tracks (Ahead (some k) (B.rel m a)) (fun t u => Kin f g t u ∧ t.kind = k) (B.rel n b) Parser.next Parser.next := by
  rintro ⟨previous, _ | ⟨t, ts⟩, last, size⟩ ⟨previous', rest', last', size'⟩ ⟨hs, hc⟩
  case nil => exact nofun
  case cons =>
    obtain ⟨u, us, rfl, hk⟩ := (B.head hs).next rfl
    obtain rfl : t.kind = k := Option.some.inj hc
    rintro _ _ ⟨⟩
    exact ⟨u, _, rfl, ⟨hk, rfl⟩, B.step hs rfl rfl h⟩

theorem nextAt (h : k.Turns m a n b) :
    Tracks (Ahead (some k) (B.rel m a)) (fun t u => Kin f g t u ∧ t.kind = k) (B.rel n b) Parser.next Parser.next :=
  nextGoes (.turn h)

-- The two next tokens are known.
theorem nextThen {l : Kind} (h : k.Turns m a n b) : Tracks (fun c d => B.rel m a c d ∧ c.kind? = some k ∧ c.secondKind? = some l)
    (fun t u => Kin f g t u ∧ t.kind = k) (Ahead (some l) (B.rel n b)) Parser.next Parser.next := by
  rintro ⟨previous, _ | ⟨t, ts⟩, last, size⟩ d ⟨hs, hc, hl⟩
  case nil => exact nofun
  case cons =>
    rintro _ _ ⟨⟩
    obtain ⟨u, d', hd, ht, hs⟩ := nextAt h _ d ⟨hs, hc⟩ t _ rfl
    exact ⟨u, d', hd, ht, hs, by simpa [Cursor.kind?, Cursor.secondKind?, List.head?_eq_getElem?] using hl⟩

theorem accept (h : k.Turns m a n b) {l : Bool → Parser α} {l' : Bool → Parser β}
    (ht : Tracks (B.rel n b) V S (l true) (l' true)) (hf : Tracks (B.rel m a) V S (l false) (l' false)) :
    Tracks (B.rel m a) V S (Parser.accept k >>= l) (Parser.accept k >>= l') :=
  acceptOf (fun _ _ hs => (B.head hs).kind?_eq_some_iff h.not_isName) (fun hs hc hd ht => B.step hs hc hd <| .turn <| ht ▸ h) ht hf

theorem ifAccept (h : k.Turns m a n b) (ht : Tracks (B.rel n b) V S p q) (hf : Tracks (B.rel m a) V S p' q') :
    Tracks (B.rel m a) V S (Parser.accept k >>= fun x => if x then p else p') (Parser.accept k >>= fun x => if x then q else q') :=
  accept h ht hf

theorem expect (h : k.Turns m a n b) : Tracks (B.rel m a) (Kin f g) (B.rel n b) (Parser.expect k) (Parser.expect k) :=
  expectOf h.not_isName (fun _ _ => B.head) fun hs hc hd ht => B.step hs hc hd <| .turn <| ht ▸ h

theorem ident : Tracks (B.rel m a) (Same f g) (B.rel m true) Parser.ident Parser.ident := by
  refine next fun t u hk => ?_
  split
  case h_2 => exact .failAt
  case h_1 text ht =>
    obtain ⟨text', hu, hn⟩ := Kind.name_of_recast (ht ▸ hk.kind)
    rw [hu, ht]
    refine (pure ?_).before fun c d hs => hs m true .name
    simp [hk.span, hn]

theorem here {l : Span → Parser α} {l' : Span → Parser β} (h : ∀ z w, f.place z = g.place w → Tracks (B.rel m a) V S (l z) (l' w)) :
    Tracks (B.rel m a) V S (Parser.here >>= l) (Parser.here >>= l') :=
  TracksTo.tracks <| .here fun z w hz => (h z w hz).to

theorem previous {l : Span → Parser α} {l' : Span → Parser β} (h : ∀ z w, f.place z = g.place w → Tracks (B.rel m a) V S (l z) (l' w)) :
    Tracks (B.rel m a) V S (Parser.previous >>= l) (Parser.previous >>= l') :=
  fun c d hs => h _ _ (B.previous hs) c d hs

theorem accepts (h : k.isPlain) : Tracks (B.rel m a) Eq (B.rel m a) (Parser.accept k) (Parser.accept k) := by
  have ha : Tracks (B.rel m a) Eq (B.rel m a) (Parser.accept k >>= Pure.pure) (Parser.accept k >>= Pure.pure) :=
    accept (.plain h) (.loosen <| .pure rfl) (.pure rfl)
  rwa [bind_pure] at ha

-- What is next is known, and it is the same for both unless it is a name.
theorem peek {l : Option Kind → Parser α} {l' : Option Kind → Parser β}
    (hk : ∀ o, (∀ x, o ≠ some (.name x)) → Tracks (Ahead o (B.rel m a)) V S (l o) (l' o))
    (hn : ∀ x y, f.name x = g.name y → Tracks (Ahead (some (.name x)) (B.rel m a)) V S (l <| some <| .name x) (l' <| some <| .name y)) :
    Tracks (B.rel m a) V S (Parser.peek >>= l) (Parser.peek >>= l') :=
  TracksTo.tracks <| .peek (fun o ho => (hk o ho).to) fun x y hx => (hn x y hx).to

-- The next token is one of the given signs, the same for both, or none of them.
theorem peekSign {γ : Type} {op? : Kind → Option γ} (hs : Kind.Signs op?) {l : Option Kind → Parser α} {l' : Option Kind → Parser β}
    (h : ∀ k w, op? k = some w → Tracks (Ahead (some k) (B.rel m a)) V S (l (some k)) (l' (some k)))
    (hf : ∀ o o', o.bind op? = none → o'.bind op? = none → Tracks (B.rel m a) V S (l o) (l' o')) :
    Tracks (B.rel m a) V S (Parser.peek >>= l) (Parser.peek >>= l') := by
  refine peek (fun o ho => ?_) fun x y _ => .seen <| hf _ _ (hs.name x) (hs.name y)
  cases hw : o.bind op?
  case none => exact .seen <| hf o o hw hw
  case some w =>
    obtain ⟨k, rfl, hk⟩ := Option.bind_eq_some_iff.mp hw
    exact h k w hk

theorem startsExpr : Tracks (B.rel m a) Eq (B.rel m a) Parser.startsExpr Parser.startsExpr := by
  refine peek (fun o ho => ?_) fun x y _ => .seen <| .pure rfl
  split <;> exact .seen <| .pure rfl

theorem after [Recast α] {p p' : Parser α} (h : k.Turns m a n b) (hp : Tracks (B.rel n b) (Same f g) (B.rel m a) p p') :
    Tracks (B.rel m a) (Same f g) (B.rel m a) (Parser.after k p) (Parser.after k p') := by
  refine .ifAccept h (.bind hp fun x y hx => .pure ?_) (.pure rfl)
  simp_all

theorem many_items [Recast α] {step step' : Parser (Option α)} (h : Tracks (B.rel m a) (Same f g) (B.rel m a) step step') :
    Tracks (B.rel m a) (Same f g) (B.rel m a) (Parser.many step) (Parser.many step') :=
  many h fun _ _ => B.size

-- Items may end in a colon, but a comma is none.
theorem commaTail [Recast α] {p p' : Parser α} {stop stop' : Parser Bool} (hs : Tracks (B.rel m true) Eq (B.rel m true) stop stop')
    (h : Tracks (B.rel m true) (Same f g) (B.rel m a) p p') :
    Tracks (B.rel m a) (Same f g) (B.rel m a) (Parser.commaTail stop p) (Parser.commaTail stop' p') := by
  refine many_items <| .ifAccept (.plain rfl) (.bind hs fun x y hx => .ite hx (.loosen <| .pure rfl) <| .bind h fun x y hx => .pure ?_) (.pure rfl)
  simp_all

theorem foldItems {σ : Type} [Recast σ] {close : Kind} (hc : close.isName = false) {item item' : σ → Parser σ}
    (h : ∀ s s', Same f g s s' → Tracks (B.rel m true) (Same f g) (B.rel m true) (item s) (item' s')) {s s' : σ} (hs : Same f g s s') :
    Tracks (B.rel m true) (Same f g) (B.rel m true) (Parser.foldItems close item s) (Parser.foldItems close item' s') := by
  refine .get fun c d hr => .before ?_ <| by rintro _ _ ⟨rfl, rfl⟩; exact hr
  exact foldUpTo (isAt hc) (accepts rfl) h (Nat.succ_le_succ <| B.size hr) hs

end Parser.Tracks
end PyVerify
