import PyVerify.Proofs.Parser.Tracks

namespace PyVerify

open Token (Kind Mark)

-- A list of tokens, and the stretches of the text that the tokens and what is read from them may take up.
structure Ground where
  tokens  : List Token
  Fits    : Span → Prop
  origin  : Fits (.point 0)
  join    : ∀ {a b}, Fits a → Fits b → Fits (a.join b)
  token   : ∀ t ∈ tokens, Fits t.span

variable {g : Ground}

-- Two cursors at the same place of the list, with fewer than `n` tokens ahead. From both of them, what is repeated may be
-- repeated as often as the list is long, or more often.
structure Abreast (g : Ground) (n : Nat) (c d : Cursor) : Prop where
  same      : ∃ size, d = { c with size }
  ahead     : c.rest <:+ g.tokens
  fewer     : c.rest.length < n
  roomy     : g.tokens.length ≤ c.size
  roomier   : g.tokens.length ≤ d.size
  previous  : g.Fits c.previous
  last      : g.Fits c.last

namespace Abreast

variable {m n : Nat} {c d : Cursor} {t : Token} {ts : List Token}

theorem mono (h : Abreast g n c d) (hn : n ≤ m) : Abreast g m c d where
  __ := h
  fewer := h.fewer.trans_le hn

theorem of_fewer (h : Abreast g n c d) (hm : c.rest.length < m) : Abreast g m c d where
  __ := h
  fewer := hm

-- There are never more tokens ahead than the list has.
theorem capped (h : Abreast g n c d) : Abreast g (min n (g.tokens.length + 1)) c d :=
  h.of_fewer <| lt_min h.fewer <| Nat.lt_succ_of_le h.ahead.length_le

theorem here (h : Abreast g n c d) : g.Fits c.here := by
  unfold Cursor.here
  split
  case h_1 hr => exact g.token _ <| h.ahead.subset <| hr ▸ .head _
  case h_2    => exact h.last

theorem behind (h : Abreast g n c d) (hc : c.rest = t :: ts) : Abreast g (n - 1) (c.behind t ts) (d.behind t ts) where
  same      := by
    obtain ⟨size, rfl⟩ := h.same
    exact ⟨size, rfl⟩
  ahead     := (List.suffix_cons t ts).trans <| hc ▸ h.ahead
  fewer     := by
    have hn := h.fewer
    rw [hc, List.length_cons] at hn
    exact Nat.lt_sub_of_add_lt hn
  roomy     := h.roomy
  roomier   := h.roomier
  previous  := g.token t <| h.ahead.subset <| hc ▸ .head _
  last      := h.last

-- At the beginning of the list.
theorem ofTokens {size : Nat} (hs : g.tokens.length ≤ size) :
    Abreast g (g.tokens.length + 1) (.ofTokens g.tokens) { Cursor.ofTokens g.tokens with size } where
  same      := ⟨size, rfl⟩
  ahead     := List.suffix_rfl
  fewer     := Nat.lt_succ_self _
  roomy     := le_rfl
  roomier   := hs
  previous  := g.origin
  last      := by
    unfold Cursor.ofTokens
    cases hl : g.tokens.getLast?
    case none => exact g.origin
    case some => exact g.token _ <| List.mem_of_getLast? hl

end Abreast

-- The two come to the same end: they give the same, of which something is known, and stand at the same place again; or
-- they fail at the same stretch of the text, and not because they went too deep.
inductive Meets {α : Type} (g : Ground) (V : α → Prop) (m : α → Nat) :
    Except SyntaxError (α × Cursor) → Except SyntaxError (α × Cursor) → Prop
  | ok (hv : V a) (hc : Abreast g (m a) c d) : Meets g V m (.ok (a, c)) (.ok (a, d))
  | error (he : e.cause ≠ .tooDeep) (hz : g.Fits e.span) : Meets g V m (.error e) (.error e)

namespace Parser

variable {α β σ : Type} {V W : α → Prop} {U : β → Prop} {S : σ → Prop} {i j k m n : Nat} {l l' : α → Nat} {s : β → Nat}
variable {p p' q q' : Parser α}

-- Two parsers that differ only in how deep and how often they may go come to the same end, if fewer than `n` tokens are
-- ahead: neither of them needs to go deeper.
def Settles (g : Ground) (n : Nat) (V : α → Prop) (l : α → Nat) (p q : Parser α) : Prop :=
  ∀ c d, Abreast g n c d → Meets g V l (p c) (q d)

-- Parsers that take a token or more.
abbrev SettlesStep (g : Ground) (n : Nat) (p q : Parser α) : Prop :=
  Settles g n (fun _ => True) (fun _ => n - 1) p q

-- What is repeated takes a token whenever it gives something.
def left (n : Nat) : Option α → Nat
  | some _  => n - 1
  | none    => n

theorem left_le (n : Nat) (o : Option α) : left n o ≤ n := by
  cases o
  case none => exact le_rfl
  case some => exact Nat.sub_le n 1

-- Of depth or rounds, no more is used up than there are tokens ahead.
theorem fuel_induction {F : Type} {P : Nat → F → F → Prop} {x y : Nat → F} (hz : ∀ p q, P 0 p q)
    (hs : ∀ k ≤ n, 0 < k → ∀ i j, (∀ m < k, P m (x i) (y j)) → P k (x (i + 1)) (y (j + 1)))
    (hi : n ≤ i) (hj : n ≤ j) : P n (x i) (y j) := by
  induction i generalizing j n
  case zero =>
    obtain rfl := Nat.le_zero.mp hi
    exact hz ..
  case succ i h =>
    obtain rfl | hn := n.eq_zero_or_pos
    case inl => exact hz ..
    obtain ⟨j, rfl⟩ := Nat.exists_eq_add_of_le' (hn.trans_le hj)
    exact hs n le_rfl hn i j fun m hm => h (fun k hk => hs k (by omega)) (by omega) (by omega)

namespace Settles

theorem pure {a : α} (hv : V a) (hl : n ≤ l a) : Settles g n V l (Pure.pure a) (Pure.pure a) :=
  fun _ _ hc => .ok hv (hc.mono hl)

theorem failAt {cause : SyntaxError.Cause} {z : Span} (hc : cause ≠ .tooDeep) (hz : g.Fits z) :
    Settles g n V l (Parser.failAt cause z) (Parser.failAt cause z) :=
  fun _ _ _ => .error hc hz

theorem fail {cause : SyntaxError.Cause} (hc : cause ≠ .tooDeep) : Settles g n V l (Parser.fail cause) (Parser.fail cause) := by
  intro c d h
  obtain ⟨size, rfl⟩ := h.same
  exact .error hc h.here

theorem bind {x : α → Parser β} {y : α → Parser β} (hp : Settles g n V l p q) (hx : ∀ a, V a → Settles g (l a) U s (x a) (y a)) :
    Settles g n U s (p >>= x) (q >>= y) := by
  intro c d h
  change Meets g U s (p c >>= fun (a, c) => x a c) (q d >>= fun (a, d) => y a d)
  have hm := hp c d h
  generalize p c = r, q d = r' at hm ⊢
  cases hm
  case ok hv hc     => exact hx _ hv _ _ hc
  case error he hz  => exact .error he hz

theorem mono (h : Settles g n V l p q) (hv : ∀ a, V a → W a) (hl : ∀ a, l a ≤ l' a) : Settles g n W l' p q := by
  intro c d hc
  have hm := h c d hc
  generalize p c = r, q d = r' at hm ⊢
  cases hm
  case ok hv' hc    => exact .ok (hv _ hv') (hc.mono <| hl _)
  case error he hz  => exact .error he hz

theorem closer (h : Settles g n V l p q) (hm : m ≤ n) : Settles g m V l p q :=
  fun c d hc => h c d (hc.mono hm)

theorem within (h : Settles g n V l p q) (hl : ∀ a, l a ≤ l' a) : Settles g n V l' p q :=
  h.mono (fun _ => id) hl

theorem any (h : Settles g n V l p q) : Settles g n (fun _ => True) l p q :=
  h.mono (fun _ _ => trivial) fun _ => le_rfl

theorem map {f : α → β} (h : Settles g n V l p q) (hv : ∀ a, V a → U (f a)) (hl : ∀ a, l a ≤ s (f a)) :
    Settles g n U s (f <$> p) (f <$> q) :=
  bind h fun a ha => pure (hv a ha) (hl a)

-- No place has fewer tokens ahead than none.
theorem zero : Settles g 0 V l p q :=
  fun _ _ h => (Nat.not_lt_zero _ h.fewer).elim

theorem ite {b : Prop} [Decidable b] (ht : Settles g n V l p q) (hf : Settles g n V l p' q') :
    Settles g n V l (if b then p else p') (if b then q else q') := by
  split
  case isTrue   => exact ht
  case isFalse  => exact hf

-- What looks at the tokens ahead leaves them there.

theorem get {x y : Cursor → Parser α} (h : ∀ c size, g.tokens.length ≤ c.size → g.tokens.length ≤ size →
    Settles g n V l (x c) (y { c with size })) : Settles g n V l (MonadState.get >>= x) (MonadState.get >>= y) := by
  intro c d hc
  obtain ⟨size, rfl⟩ := hc.same
  exact h c size hc.roomy hc.roomier c _ hc

theorem view {x y : Cursor → Parser α} (hy : ∀ c size, y { c with size } = y c) (h : ∀ c, Settles g n V l (x c) (y c)) :
    Settles g n V l (MonadState.get >>= x) (MonadState.get >>= y) :=
  get fun c size _ _ => hy c size ▸ h c

theorem peek {x y : Option Kind → Parser α} (h : ∀ o, Settles g n V l (x o) (y o)) :
    Settles g n V l (Parser.peek >>= x) (Parser.peek >>= y) :=
  view (fun _ _ => rfl) fun c => h c.kind?

theorem isAt {kind : Kind} {x y : Bool → Parser α} (h : ∀ b, Settles g n V l (x b) (y b)) :
    Settles g n V l (Parser.isAt kind >>= x) (Parser.isAt kind >>= y) :=
  view (fun _ _ => rfl) fun c => h (c.kind? == some kind)

theorem ifAt {kind : Kind} (ht : Settles g n V l p q) (hf : Settles g n V l p' q') :
    Settles g n V l (Parser.isAt kind >>= fun b => if b then p else p') (Parser.isAt kind >>= fun b => if b then q else q') :=
  isAt fun _ => ite ht hf

theorem look {x y : β → Parser α} {p q : Parser β} (hp : Settles g n (fun _ => True) (fun _ => n) p q)
    (h : ∀ b, Settles g n V l (x b) (y b)) : Settles g n V l (p >>= x) (q >>= y) :=
  bind hp fun b _ => h b

theorem startsExpr {x y : Bool → Parser α} (h : ∀ b, Settles g n V l (x b) (y b)) :
    Settles g n V l (Parser.startsExpr >>= x) (Parser.startsExpr >>= y) := by
  refine look (peek fun o => ?_) h
  split <;> exact pure trivial le_rfl

theorem here {x y : Span → Parser α} (h : ∀ z, g.Fits z → Settles g n V l (x z) (y z)) :
    Settles g n V l (Parser.here >>= x) (Parser.here >>= y) := by
  intro c d hc
  obtain ⟨size, rfl⟩ := hc.same
  exact h c.here hc.here c _ hc

theorem previous {x y : Span → Parser α} (h : ∀ z, g.Fits z → Settles g n V l (x z) (y z)) :
    Settles g n V l (Parser.previous >>= x) (Parser.previous >>= y) := by
  intro c d hc
  obtain ⟨size, rfl⟩ := hc.same
  exact h c.previous hc.previous c _ hc

theorem next : Settles g n (fun t => g.Fits t.span) (fun _ => n - 1) Parser.next Parser.next := by
  intro c d h
  obtain ⟨size, rfl⟩ := h.same
  obtain ⟨previous, _ | ⟨t, ts⟩, last, _⟩ := c
  case nil  => exact .error nofun h.last
  case cons => exact .ok (h.behind rfl).previous (h.behind rfl)

theorem expect {kind : Kind} : Settles g n (fun t => g.Fits t.span) (fun _ => n - 1) (Parser.expect kind) (Parser.expect kind) :=
  bind next fun _ ht => ite (pure ht le_rfl) (failAt nofun ht)

theorem ident : Settles g n (fun i => g.Fits i.span) (fun _ => n - 1) Parser.ident Parser.ident := by
  refine bind next fun t ht => ?_
  split
  case h_1 => exact pure ht le_rfl
  case h_2 => exact failAt nofun ht

theorem accept {kind : Kind} {x y : Bool → Parser α} (ht : Settles g (n - 1) V l (x true) (y true)) (hf : Settles g n V l (x false) (y false)) :
    Settles g n V l (Parser.accept kind >>= x) (Parser.accept kind >>= y) := by
  refine bind (V := fun _ => True) (l := fun b => if b then n - 1 else n) (ifAt (bind next fun _ _ => pure trivial le_rfl) (pure trivial le_rfl)) ?_
  rintro (_ | _) _
  case false  => exact hf
  case true   => exact ht

theorem ifAccept {kind : Kind} (ht : Settles g (n - 1) V l p q) (hf : Settles g n V l p' q') :
    Settles g n V l (Parser.accept kind >>= fun b => if b then p else p') (Parser.accept kind >>= fun b => if b then q else q') :=
  accept ht hf

theorem accepted {kind : Kind} {x y : Bool → Parser α} (h : ∀ k ≤ n, ∀ b, Settles g k V l (x b) (y b)) :
    Settles g n V l (Parser.accept kind >>= x) (Parser.accept kind >>= y) :=
  accept (h _ (Nat.sub_le n 1) true) (h n le_rfl false)

-- What is behind a token, if that is next.

theorem afterStep {kind : Kind} (h : Settles g (n - 1) V (fun _ => m) p q) (hm : m ≤ n - 1) :
    Settles g n (fun o => ∀ a ∈ o, V a) (left n) (Parser.after kind p) (Parser.after kind q) :=
  ifAccept (bind h fun _ ha => pure (by simpa) hm) (pure nofun le_rfl)

theorem after {kind : Kind} (h : Settles g (n - 1) V (fun _ => m) p q) (hm : m ≤ n - 1) :
    Settles g n (fun o => ∀ a ∈ o, V a) (fun _ => n) (Parser.after kind p) (Parser.after kind q) :=
  (afterStep h hm).within (left_le n)

-- What is repeated or nested may be so once more than the list is long.
theorem withSize {x y : Nat → Parser α} (h : ∀ k ≤ n, ∀ i ≥ k, ∀ j ≥ k, Settles g k V l (x i) (y j)) :
    Settles g n V l (do x ((← MonadState.get).size + 1)) (do y ((← MonadState.get).size + 1)) := by
  intro c d hc
  have hm : min n (g.tokens.length + 1) ≤ g.tokens.length + 1 := min_le_right ..
  refine get (fun c size hc hs => h _ (min_le_left ..) _ ?_ _ ?_) c d hc.capped
  case refine_1 => exact hm.trans <| Nat.succ_le_succ hc
  case refine_2 => exact hm.trans <| Nat.succ_le_succ hs

section

variable {step step' : Parser (Option α)}

-- Each round but the last takes a token, so that there are no more rounds than tokens.
theorem repeatUpTo (h : ∀ k ≤ n, Settles g k (fun o => ∀ a ∈ o, V a) (left k) step step') (hi : n ≤ i) (hj : n ≤ j) :
    Settles g n (fun as => ∀ a ∈ as, V a) (fun _ => n) (Parser.repeatUpTo step i) (Parser.repeatUpTo step' j) := by
  refine fuel_induction (P := fun n p q => Settles g n _ (fun _ => n) p q) (fun _ _ => zero) (fun k hk hp i j hr => ?_) hi hj
  refine bind (h k hk) fun o ho => ?_
  cases o
  case none   => exact pure nofun le_rfl
  case some a => exact bind (hr (k - 1) (by omega)) fun as ha => pure (List.forall_mem_cons.mpr ⟨ho a rfl, ha⟩) (Nat.sub_le k 1)

theorem many (h : ∀ k ≤ n, Settles g k (fun o => ∀ a ∈ o, V a) (left k) step step') :
    Settles g n (fun as => ∀ a ∈ as, V a) (fun _ => n) (Parser.many step) (Parser.many step') :=
  withSize fun _ hk _ hi _ hj => (repeatUpTo (fun i hi => h i (hi.trans hk)) hi hj).within fun _ => hk

end

theorem commaTail {stop : Parser Bool} (hs : ∀ k, Settles g k (fun _ => True) (fun _ => k) stop stop)
    (h : ∀ k ≤ n, Settles g k V (fun _ => k - 1) p q) :
    Settles g n (fun as => ∀ a ∈ as, V a) (fun _ => n) (Parser.commaTail stop p) (Parser.commaTail stop q) := by
  refine many fun k hk => ifAccept (bind (hs _) fun _ _ => ite (pure nofun (Nat.sub_le k 1)) ?_) (pure nofun le_rfl)
  exact bind (h (k - 1) (by omega)) fun _ ha => pure (by simpa) (Nat.sub_le ..)

section

variable {close : Kind} {item item' : σ → Parser σ}

theorem foldUpTo (h : ∀ k ≤ n, ∀ s, S s → Settles g k S (fun _ => k - 1) (item s) (item' s)) (hi : n ≤ i) (hj : n ≤ j)
    {s : σ} (hs : S s) :
    Settles g n S (fun _ => n) (Parser.foldUpTo close item i s) (Parser.foldUpTo close item' j s) := by
  refine fuel_induction (P := fun n (p q : σ → Parser σ) => ∀ s, S s → Settles g n S (fun _ => n) (p s) (q s))
    (fun _ _ _ _ => zero) ?_ hi hj s hs
  intro k hk hp i j hr s hs
  refine ifAt (pure hs le_rfl) <| bind (h k hk s hs) fun s hs => ifAccept ?_ (pure hs (Nat.sub_le k 1))
  exact (hr (k - 1 - 1) (by omega) s hs).within fun _ => by omega

theorem foldItems (h : ∀ k ≤ n, ∀ s, S s → Settles g k S (fun _ => k - 1) (item s) (item' s)) {s : σ} (hs : S s) :
    Settles g n S (fun _ => n) (Parser.foldItems close item s) (Parser.foldItems close item' s) :=
  withSize fun _ hk _ hi _ hj => (foldUpTo (fun i hi => h i (hi.trans hk)) hi hj hs).within fun _ => hk

end

theorem skipNewlines : Settles g n (fun _ => True) (fun _ => n) Parser.skipNewlines Parser.skipNewlines := by
  refine bind (many (V := fun _ => True) fun k _ => ifAccept ?_ (pure nofun le_rfl)) fun _ _ => pure trivial le_rfl
  exact pure (fun _ _ => trivial) le_rfl

-- A parser at the side of itself.

theorem of_ok {a : α} {c d : Cursor} (h : Settles g n V l p p) (hc : Abreast g n c c) (hp : p c = .ok (a, d)) : Abreast g (l a) d d := by
  have hm := h c c hc
  rw [hp] at hm
  cases hm
  case ok hd => exact hd

theorem of_error {e : SyntaxError} {c : Cursor} (h : Settles g n V l p p) (hc : Abreast g n c c) (hp : p c = .error e) :
    e.cause ≠ .tooDeep ∧ g.Fits e.span := by
  have hm := h c c hc
  rw [hp] at hm
  cases hm
  case error he hz => exact ⟨he, hz⟩

-- What a whole list of tokens leads to.

theorem run'_eq {size : Nat} (h : Settles g (g.tokens.length + 1) V l p q) (hs : g.tokens.length ≤ size) :
    q.run' { Cursor.ofTokens g.tokens with size } = p.run' (.ofTokens g.tokens) := by
  have hm := h _ _ (.ofTokens hs)
  change Prod.fst <$> q _ = Prod.fst <$> p _
  generalize p _ = r, q _ = r' at hm ⊢
  cases hm <;> rfl

theorem of_run'_eq_error {e : SyntaxError} (h : Settles g (g.tokens.length + 1) V l p p) (he : p.run' (.ofTokens g.tokens) = .error e) :
    e.cause ≠ .tooDeep ∧ g.Fits e.span := by
  change Prod.fst <$> p (.ofTokens g.tokens) = _ at he
  cases hp : p (.ofTokens g.tokens) <;> rw [hp] at he <;> cases he
  case error => exact h.of_error (.ofTokens le_rfl) hp

end Settles
end Parser
end PyVerify
