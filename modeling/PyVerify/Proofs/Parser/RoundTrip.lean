import PyVerify.Parser.Statement
import PyVerify.Proofs.Parser.Recovers

namespace PyVerify.Parser

open Token (Kind Keyword Mark)

variable {p : Nat} {e : Expr} {ks rest : List Kind} {c d : Cursor} {depth : Nat}

-- An expression is read back from its tokens at its own level. Where operators associate to the left, its parts are
-- read, and parts may follow them.
structure Returns (e : Expr) : Prop where
  recovers  : Recovers e.level e e.written
  infixes   : 5 ≤ e.level → e.level ≤ 10 → Collects e.level (infixStep e.level) applyInfix e e.written
  trailers  : e.level = 13 → Collects 13 trailer Trailer.apply e e.written

theorem joins?_mark {op : BinaryOp} : (Kind.mark op.mark).joins? = some op.level := by
  cases op <;> rfl

theorem infixOp?_mark {op : BinaryOp} (h : op ≠ .pow) : infixOp? op.level (.mark op.mark) = some op := by
  cases op
  case pow => exact (h rfl).elim
  all_goals rfl

theorem signOf?_kind {op : UnaryOp} (h : op ≠ .not) : signOf? op.kind = some op := by
  cases op
  case not => exact (h rfl).elim
  all_goals rfl

namespace Returns

variable {left right x value index func test body orelse : Expr} {s : Span}

-- As an operand it is read at the level of the operand.
theorem operand (p : Nat) (h : Returns e) (hp : p ≤ 14) : Recovers p e (e.writtenAt p) := by
  unfold Expr.writtenAt Expr.enclosed
  split
  case isTrue     => exact (h.recovers.mono (Nat.zero_le _) Expr.level_le).parens.mono hp le_rfl
  case isFalse hl => exact h.recovers.mono (Nat.le_of_not_lt hl) Expr.level_le

theorem collects {α : Type} {step : Below → Parser (Option α)} {extend : Expr → α → Expr} (h : Returns e) (hp : p < 14)
    (hc : e.level = p → Collects p step extend e e.written) : Collects p step extend e (e.writtenAt p) := by
  by_cases hl : e.level = p
  case pos =>
    rw [Expr.writtenAt, Expr.enclosed, if_neg (by omega)]
    exact hc hl
  case neg =>
    have hs : e.writtenAt p = e.writtenAt (p + 1) := by
      have hi : e.level < p ↔ e.level < p + 1 := by omega
      simp only [Expr.writtenAt, Expr.enclosed, hi]
    rw [hs]
    exact .of_recovers (h.operand _ hp)

theorem leftmost (h : Returns e) (hp : 5 ≤ p) (hq : p ≤ 10) : Collects p (infixStep p) applyInfix e (e.writtenAt p) := by
  refine h.collects (by omega) ?_
  rintro rfl
  exact h.infixes hp hq

theorem innermost (h : Returns e) : Collects 13 trailer Trailer.apply e (e.writtenAt 13) :=
  h.collects (by decide) h.trailers

-- The operators of other levels do not associate to the left.
theorem of_recovers (q : Nat) (hq : e.level = q) (hn : q < 5 ∨ 10 < q ∧ q ≠ 13) (h : Recovers q e e.written) :
    Returns e where
  recovers := hq ▸ h
  infixes := by omega
  trailers := by omega

theorem of_infix (hp : 5 ≤ e.level) (hq : e.level ≤ 10) (h : Collects e.level (infixStep e.level) applyInfix e e.written) :
    Returns e where
  recovers := h.recovers (level_eq_spine hp hq) infixStep_none
  infixes _ _ := h
  trailers := by omega

theorem of_trailer (hl : e.level = 13) (h : Collects 13 trailer Trailer.apply e e.written) : Returns e where
  recovers := hl ▸ h.recovers rfl trailer_none
  infixes := by omega
  trailers _ := h

theorem pow (hl : Returns left) (hr : Returns right) : Returns (.binary s left .pow right) := by
  have hl := hl.operand 13 (by decide)
  have hr := hr.operand 11 (by decide)
  refine of_recovers 12 rfl (by decide) ⟨hl.starts.append.mono (by decide), fun hd hc hs => ?_⟩
  simp only [Expr.written_binary, BinaryOp.leftLevel, BinaryOp.rightLevel, List.append_assoc, List.length_append,
    List.length_cons] at hd hc
  refine .bind (.unlessAt (hc.kind?_ne_of_starts hl.starts nofun) <| hl.runs (by omega) hc ?_) fun x d hx => ?_
  case refine_1 => exact Stops.of_joins? rfl (by decide)
  refine .ifAccept hx.ahead fun d hd' => .bind (hr.below_factor (by omega) hd' hs.of_power) fun y d hy => .pure ⟨?_, hy.ahead⟩
  simp [Expr.unplaced, hx.same, hy.same]

theorem infix2 {op : BinaryOp} (ho : op ≠ .pow) (hl : Returns left) (hr : Returns right) :
    Returns (.binary s left op right) := by
  have hp : 5 ≤ op.level ∧ op.level ≤ 10 ∧ op.leftLevel = op.level ∧ op.rightLevel = op.level + 1 := by
    cases op
    case pow => exact (ho rfl).elim
    all_goals decide
  obtain ⟨h5, h10, hleft, hright⟩ := hp
  have hl := hl.leftmost h5 h10
  have hr := hr.operand (op.level + 1) (by omega)
  refine of_infix h5 h10 ?_
  rw [Expr.written_binary, hleft, hright]
  refine hl.append (fun rest => ?_) (Nat.zero_lt_succ _) fun hd hc hs => ?_
  case refine_1 => exact .of_joins? joins?_mark (Nat.lt_succ_self _)
  have hk := hc.kind?
  refine .peek ?_
  simp only [hk, List.cons_append, List.head?_cons, Option.bind_some, infixOp?_mark ho]
  refine .bind (.next hc) fun _ d ⟨_, hd'⟩ => ?_
  refine .bind (hr.runs (Nat.le_of_succ_le hd) hd' hs) fun y d hy => .pure ⟨_, rfl, hy.ahead, fun x hx => ?_⟩
  simp [applyInfix, Expr.unplaced, hx, hy.same]

theorem sign {op : UnaryOp} (ho : op ≠ .not) (h : Returns x) : Returns (.unary s op x) := by
  obtain ⟨hl, hk⟩ : op.level = 11 ∧ op.kind.opens? = some 11 := by
    cases op
    case not => exact (ho rfl).elim
    all_goals exact ⟨rfl, rfl⟩
  have hx := h.operand 11 (by decide)
  refine of_recovers 11 hl (by decide) ⟨⟨11, hk, le_rfl⟩, fun hd hc hs => ?_⟩
  rw [Expr.written_unary, hl] at hd hc
  have hf := hc.kind?
  refine .peek ?_
  simp only [hf, List.cons_append, List.head?_cons, Option.bind_some, signOf?_kind ho]
  refine .bind (.next hc) fun _ d ⟨_, hd'⟩ => .bind (hx.below_factor hd hd' hs) fun y d hy => .pure ⟨?_, hy.ahead⟩
  simp [Expr.unplaced, hy.same]

theorem not (h : Returns x) : Returns (.unary s .not x) := by
  have hx := h.operand 3 (by decide)
  refine of_recovers 3 rfl (by decide) ⟨⟨3, rfl, le_rfl⟩, fun hd hc hs => .ifAt hc.kind? ?_⟩
  refine .bind (.next hc) fun _ d ⟨_, hd'⟩ => ?_
  refine .bind (hx.below_notTest hd hd' hs) fun y d hy => .pure ⟨?_, hy.ahead⟩
  simp [Expr.unplaced, hy.same]

theorem conditional (ht : Returns test) (hb : Returns body) (ho : Returns orelse) :
    Returns (.conditional s test body orelse) := by
  have ht := ht.operand 1 (by decide)
  have hb := hb.operand 1 (by decide)
  have ho := ho.operand 0 (by decide)
  refine of_recovers 0 rfl (by decide) ⟨hb.starts.append.mono (by decide), fun hd hc hs => ?_⟩
  simp only [Expr.written_conditional, List.append_assoc, List.cons_append, List.length_append, List.length_cons] at hd hc
  refine .unlessAt (hc.kind?_ne_of_starts hb.starts nofun) <| .bind (hb.runs (by omega) hc ?_) fun x d hx => ?_
  case refine_1 => exact Stops.of_joins? rfl (by decide)
  refine .ifAccept hx.ahead fun d hd' => .bind (ht.runs (by omega) hd' nofun) fun y d hy => ?_
  refine .bind (.expect hy.ahead) fun _ d hd'' => .bind (ho.below_test (by omega) hd'' hs) fun z d hz => .pure ⟨?_, hz.ahead⟩
  simp [Expr.unplaced, hx.same, hy.same, hz.same]

-- The operands behind the first one are read one after the other.
theorem bool {op : BoolOp} {values : List Expr} (hn : 2 ≤ values.length) (h : ∀ e ∈ values, Returns e) :
    Returns (.bool s op values) := by
  obtain ⟨hl, hw, hp⟩ : (∀ b, level op.level b = boolLevel op.word op (level (op.level + 1) b)) ∧
      (Kind.keyword op.word).joins? = some op.level ∧ op.level < 5 := by
    cases op <;> exact ⟨fun _ => rfl, rfl, by decide⟩
  obtain _ | ⟨v, _ | ⟨w, vs⟩⟩ := values
  case nil | cons.nil => simp at hn
  obtain ⟨hv, h⟩ := List.forall_mem_cons.mp h
  have hv := hv.operand (op.level + 1) (by omega)
  refine of_recovers op.level rfl (.inl hp) ⟨?_, fun {depth c rest} hd hc hs => ?_⟩
  case refine_1 => exact Expr.written_bool ▸ hv.starts.append.mono (Nat.le_succ _)
  rw [Expr.written_bool, separated_map_cons] at hd hc
  rw [List.length_append] at hd
  rw [List.append_assoc] at hc
  rw [hl]
  refine .bind (hv.runs (by omega) hc (.of_joins? hw (Nat.lt_succ_self _))) fun x d hx => ?_
  refine .bind (.manyItems (f := Expr.unplaced) (g := Expr.unplaced) hx.ahead (hs.mono (Nat.le_succ _)) ?_ ?_ ?_) ?_
  case refine_1 => exact fun _ _ => ⟨nofun, fun _ => Stops.of_joins? hw (Nat.lt_succ_self _)⟩
  case refine_2 =>
    intro e he hn c ks hs hc
    rw [List.length_cons] at hn
    refine .ifAccept hc fun d hd' => .bind (((h e he).operand _ (by omega)).runs (by omega) hd' hs) fun y d hy => ?_
    exact .pure ⟨⟨y, rfl, hy.same⟩, hy.ahead⟩
  case refine_3 => exact fun hd => .unlessAccept (hd.kind?_ne_of_stops hs ⟨_, hw, le_rfl⟩) <| .pure ⟨rfl, hd⟩
  case refine_4 =>
    intro ys d ⟨hm, hd⟩
    cases ys
    case nil => cases hm
    case cons y ys =>
      rw [List.getLast?_cons]
      exact .pure ⟨by simp [Expr.unplaced, hx.same, ← hm], hd⟩

theorem compare {links : List (CompareOp × Expr)} (hl : Returns left) (hn : links ≠ []) (h : ∀ l ∈ links, Returns l.snd) :
    Returns (.compare s left links) := by
  have hl := hl.operand 5 (by decide)
  have hj : ∀ (op : CompareOp) (ks : List Kind), op.kinds ++ ks ≠ [] ∧ ∀ rest, Stops 5 (op.kinds ++ ks ++ rest) := by
    rintro (_ | _) _
    all_goals exact ⟨nofun, fun _ => Stops.of_joins? rfl (by decide)⟩
  refine of_recovers 4 rfl (by decide) ⟨?_, fun {depth c rest} hd hc hs => ?_⟩
  case refine_1 => exact Expr.written_compare ▸ hl.starts.append.mono (by decide)
  rw [Expr.written_compare] at hd hc
  rw [List.length_append] at hd
  rw [List.append_assoc] at hc
  refine .bind (hl.runs (by omega) hc ?_) fun x d hx => ?_
  case refine_1 =>
    obtain _ | ⟨l, ls⟩ := links
    case nil => exact (hn rfl).elim
    case cons =>
      rw [List.flatMap_cons, List.append_assoc]
      exact (hj ..).right _
  refine .bind (.manyItems (f := fun l => (l.fst, l.snd.unplaced)) (g := fun l => (l.fst, l.snd.unplaced)) hx.ahead
    (hs.mono (by decide)) (fun _ _ => hj ..) ?_ ?_) ?_
  case refine_1 =>
    intro ⟨op, e⟩ he hn c ks hs hc
    rw [List.length_append] at hn
    have hy : Recovers 5 e (e.writtenAt 5) := (h _ he).operand 5 (by decide)
    refine .bind (.compareOp (List.append_assoc .. ▸ hc) hy.starts.append) ?_
    rintro _ d ⟨rfl, hd'⟩
    exact .bind (hy.runs (by omega) hd' hs) fun y d hy => .pure ⟨⟨_, rfl, by rw [hy.same]⟩, hy.ahead⟩
  case refine_2 =>
    refine fun hd => .bind (compareOp_none hd hs) ?_
    rintro _ d ⟨rfl, hd⟩
    exact .pure ⟨rfl, hd⟩
  case refine_3 =>
    intro ls d ⟨hm, hd⟩
    cases ls
    case nil  => exact (hn <| List.map_eq_nil_iff.mp hm.symm).elim
    case cons => exact .previous <| .pure ⟨by simp [Expr.unplaced, Expr.unplacedLinks_eq, hx.same, ← hm], hd⟩

theorem arguments {args : List Expr} {r : Arguments} {n : Nat} (h : ∀ e ∈ args, Returns e)
    (ha : ∀ e ∈ args, Kind.mark .assign ∉ e.written)
    (hn : (separated Mark.comma (args.map <| Expr.writtenAt 0)).length ≤ n)
    (hd : (separated Mark.comma (args.map <| Expr.writtenAt 0)).length < depth)
    (hc : c.Ahead (separated Mark.comma (args.map <| Expr.writtenAt 0) ++ .mark .closeParen :: rest)) :
    Runs c (Passed r args (.mark .closeParen :: rest))
      (foldUpTo Mark.closeParen (argument <| Below.ofDepth depth) (n + 1) r) := by
  induction args generalizing c r n
  case nil => exact .ifAt hc.kind? <| .pure ⟨by simp, rfl, hc⟩
  case cons e es hi =>
    obtain ⟨he, hes⟩ := List.forall_mem_cons.mp h
    obtain ⟨hb, hbs⟩ := List.forall_mem_cons.mp ha
    have he := he.operand 0 (by decide)
    have hb : Kind.mark .assign ∉ e.writtenAt 0 := Expr.not_mem_writtenAt hb
    rw [separated_map_cons, List.length_append] at hn hd
    rw [separated_map_cons, List.append_assoc] at hc
    refine .unlessAt (hc.kind?_ne_of_starts he.starts nofun) ?_
    obtain _ | ⟨f, fs⟩ := es
    case nil =>
      refine .bind (he.argument hb (by omega) (.inr rfl) hc) fun s d hs => .unlessAccept (hs.ahead.kind?_ne nofun) ?_
      exact .pure hs
    case cons =>
      rw [List.flatMap_cons, List.cons_append, ← separated_map_cons] at hn hd hc
      rw [List.length_cons] at hn hd
      obtain _ | n := n
      case zero => omega
      refine .bind (he.argument hb (by omega) (.inl rfl) hc) fun s d hs => .ifAccept hs.ahead fun d hd' => ?_
      refine (hi hes hbs (by omega) (by omega) hd').mono fun t d ht => ⟨?_, ht.keywords.trans hs.keywords, ht.ahead⟩
      simpa [hs.args] using ht.args

theorem call {args : List Expr} (hf : Returns func) (h : ∀ e ∈ args, Returns e)
    (ha : ∀ e ∈ args, Kind.mark .assign ∉ e.written) : Returns (.call s func args []) := by
  refine of_trailer rfl ?_
  rw [Expr.written_call]
  refine hf.innermost.append (fun _ => .of_joins? rfl (by decide)) (Nat.zero_lt_succ _) fun hd hc hs => ?_
  simp only [List.cons_append, List.append_assoc, List.length_append, List.length_cons] at hd hc
  refine .ifAccept hc fun d hd' => ?_
  refine .bind (Q := Passed ⟨[], []⟩ args _) (.get <| arguments h ha ?_ (by omega) hd') fun r d hr => ?_
  case refine_1 =>
    have hb := hd'.bounded
    rw [hd'.length, List.length_append] at hb
    omega
  case refine_2 =>
    refine .bind (.expect hr.ahead) fun _ d hd' => .pure ⟨_, rfl, hd', fun x hx => ?_⟩
    simpa [Trailer.apply, Expr.unplaced, hx, hr.keywords] using hr.args

theorem attr {i : Ident} (h : Returns value) : Returns (.attr s value i) := by
  refine of_trailer rfl ?_
  rw [Expr.written_attr]
  refine h.innermost.append (fun _ => .of_joins? rfl (by decide)) (Nat.zero_lt_succ _) fun hd hc hs => ?_
  refine .unlessAccept (hc.kind?_ne nofun) <| .unlessAccept (hc.kind?_ne nofun) <| .ifAccept hc fun d hd' => ?_
  refine .bind (.ident hd') fun j d ⟨hj, hd'⟩ => .pure ⟨_, rfl, hd', fun x hx => ?_⟩
  simp [Trailer.apply, Expr.unplaced, hx, hj]

theorem subscript (hv : Returns value) (hi : Returns index) : Returns (.subscript s value index) := by
  have hi := hi.operand 0 (by decide)
  refine of_trailer rfl ?_
  rw [Expr.written_subscript]
  refine hv.innermost.append (fun _ => .of_joins? rfl (by decide)) (Nat.zero_lt_succ _) fun hd hc hs => ?_
  simp only [List.cons_append, List.append_assoc, List.length_append, List.length_cons] at hd hc
  refine .unlessAccept (hc.kind?_ne nofun) <| .ifAccept hc fun d hd' => ?_
  refine .bind (hi.subscriptList (by omega) hd') fun y d hy => .bind (.expect hy.ahead) fun _ d hd' => ?_
  refine .pure ⟨_, rfl, hd', fun x hx => ?_⟩
  simp [Trailer.apply, Expr.unplaced, hx, hy.same]

theorem of_isFormula (h : e.IsFormula) : Returns e := by
  induction h
  case name | int | wideInt =>
    refine .of_recovers 14 rfl (by decide) ⟨⟨14, rfl, le_rfl⟩, fun hd hc hr => .bind (.next hc) fun t d ⟨hk, hd⟩ => ?_⟩
    simp only [hk]
    exact .pure ⟨rfl, hd⟩
  case binary op _ _ hl hr =>
    by_cases ho : op = .pow
    case pos => exact ho ▸ .pow hl hr
    case neg => exact .infix2 ho hl hr
  case unary op _ h =>
    by_cases ho : op = .not
    case pos => exact ho ▸ .not h
    case neg => exact .sign ho h
  case bool hn _ h            => exact .bool hn h
  case compare hn _ hl h      => exact .compare hl hn h
  case conditional ht hb ho   => exact .conditional ht hb ho
  case call ha hf h           => exact .call hf h fun e he => (ha e he).assign_not_mem
  case attr h                 => exact .attr h
  case subscript hv hi        => exact .subscript hv hi

end Returns

theorem Runs.skipNewlines (hc : c.Ahead [.newline, .eof]) : Runs c (fun _ d => d.Ahead [.eof]) Parser.skipNewlines := by
  let step : Parser (Option Unit) := do if ← Parser.accept .newline then return some () else return none
  have hs : Runs c (fun o d => o = some () ∧ d.Ahead [.eof]) step := .ifAccept hc fun _ hd => .pure ⟨rfl, hd⟩
  obtain ⟨_, d, hs, rfl, hd⟩ := hs
  have hl : d.rest.length < c.rest.length := by
    rw [hd.length, hc.length]
    exact Nat.lt_succ_self _
  refine .bind (Q := fun _ d => d.Ahead [.eof]) (.many hc.bounded (.cons hs hl .nil) ?_) fun _ _ he => .pure he
  exact .unlessAccept (hd.kind?_ne nofun) <| .pure ⟨rfl, hd⟩

end PyVerify.Parser

namespace PyVerify

open Token (Kind)

-- With parentheses only where an operand binds too loosely, an expression is read back from its tokens.
theorem Token.parseExpr_written {e : Expr} {tokens : List Token} (h : e.IsFormula)
    (ht : tokens.map Token.kind = e.written ++ [.newline, .eof]) :
    ∃ x, Token.parseExpr tokens = .ok x ∧ x.unplaced = e.unplaced := by
  have hr := (Parser.Returns.of_isFormula h).operand 0 (by decide)
  have hc : (Cursor.ofTokens tokens).Ahead (e.writtenAt 0 ++ [.newline, .eof]) := ⟨Expr.writtenAt_zero ▸ ht, le_rfl⟩
  have hp : Parser.Runs (.ofTokens tokens) (fun x _ => x.unplaced = e.unplaced)
      (Parser.exprForm <| .ofDepth (tokens.length + 1)) := by
    have hd : (e.writtenAt 0).length < tokens.length + 1 := by
      have hl := hc.length
      rw [List.length_append] at hl
      exact Nat.lt_succ_of_le <| hl ▸ Nat.le_add_right ..
    refine .bind (Q := Parser.Back e [.newline, .eof]) ?_ fun x d hx => ?_
    case refine_1 => exact .bind (hr.starOrNamed hd hc nofun nofun) fun x d hx => .unlessAt (hx.ahead.kind?_ne nofun) <| .pure hx
    case refine_2 => exact .bind (.skipNewlines hx.ahead) fun _ d hd => .ifAt hd.kind? <| .pure hx.same
  obtain ⟨x, d, hx, he⟩ := hp
  refine ⟨x, ?_, he⟩
  change Prod.fst <$> Parser.exprForm _ _ = _
  rw [hx]
  rfl

-- Minus (a + 1) ** -b, which is below x.f(y, z)[0], which is not c.
def ladder : Expr :=
  let s := Span.nowhere
  let sum := .binary s (.name s "a") .add (.constant s (.int 1))
  let power := .unary s .neg <| .binary s sum .pow <| .unary s .neg <| .name s "b"
  let item := .subscript s (.call s (.attr s (.name s "x") ⟨"f", s⟩) [.name s "y", .name s "z"] []) (.constant s (.int 0))
  let chain := .compare s power [(.lt, item), (.isNot, .name s "c")]
  .conditional s (.name s "g") (.bool s .and [.unary s .not chain, .name s "d"]) (.name s "h")

theorem ladder_readsBack : ladder.IsFormula ∧ ∃ x, Token.parseExpr
      ([.keyword .kwNot, .mark .minus, .mark .openParen, .name "a", .mark .plus, .int 1, .mark .closeParen, .mark .doubleStar,
        .mark .minus, .name "b", .mark .less, .name "x", .mark .dot, .name "f", .mark .openParen, .name "y", .mark .comma,
        .name "z", .mark .closeParen, .mark .openBracket, .int 0, .mark .closeBracket, .keyword .kwIs, .keyword .kwNot,
        .name "c", .keyword .kwAnd, .name "d", .keyword .kwIf, .name "g", .keyword .kwElse, .name "h", .newline, .eof].map
          (⟨·, .point 0⟩)) = .ok x ∧ x.unplaced = ladder := by
  have hp {P : Expr → Prop} {e f : Expr} (he : P e) (hf : P f) : ∀ x ∈ [e, f], P x :=
    List.forall_mem_cons.mpr ⟨he, List.forall_mem_singleton.mpr hf⟩
  have hf : ladder.IsFormula := by
    refine .conditional .name (.bool le_rfl <| hp (.unary <| .compare ?_ nofun ?_) .name) .name
    case refine_1 => exact .unary <| .binary (.binary .name .int) (.unary .name)
    case refine_2 =>
      refine List.forall_mem_cons.mpr ⟨?_, List.forall_mem_singleton.mpr .name⟩
      exact .subscript (.call (.attr .name) <| hp .name .name) .int
  exact ⟨hf, Token.parseExpr_written hf rfl⟩

end PyVerify
