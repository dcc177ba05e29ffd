import PyVerify.Parser.Expression
import PyVerify.Proofs.Parser.Reads

namespace PyVerify

open Token (Kind Keyword Mark)

variable {f : ℕ →o ℕ}

-- A parser for expressions.
abbrev Parser.ReadsExpr (f : ℕ →o ℕ) (c : Cursor) (p : Parser Expr) : Prop :=
  Ends f c (fun e d => c.Gets f (.expr e) d) p

-- The parsers for what is nested in an expression.
structure Below.Reads (f : ℕ →o ℕ) (b : Below) : Prop where
  test    : ∀ c, Parser.ReadsExpr f c b.test
  orTest  : ∀ c, Parser.ReadsExpr f c b.orTest
  notTest : ∀ c, Parser.ReadsExpr f c b.notTest
  bitOr   : ∀ c, Parser.ReadsExpr f c b.bitOr
  factor  : ∀ c, Parser.ReadsExpr f c b.factor

namespace Parser

-- A comprehension goes on.
def StartsGenerators (c : Cursor) : Prop :=
  c.kind? = some Keyword.kwFor ∨ c.kind? = some Keyword.kwAsync

def Arguments.items (s : Arguments) : List Item :=
  s.args.map .expr ++ s.keywords.map .keyword

-- What is read next makes a stretch longer.
def Joins {α : Type} (f : ℕ →o ℕ) (span : α → Span) (c : Cursor) (a : α) (d : Cursor) : Prop :=
  ∀ {e : Cursor} {z}, e.Reads f z [] c → e.Reads f (z.join (span a)) [] d

theorem Repeats.join {α : Type} {span : α → Span} {c d e : Cursor} {z : Span} {as : List α}
    (h : Repeats f (Joins f span) c as d) (hz : e.Reads f z [] c) :
    e.Reads f (as.foldl (fun z a => z.join (span a)) z) [] d := by
  induction h generalizing z
  case nil h        => exact hz.move h
  case cons h _ hi  => exact hi (h hz)

namespace Ends

variable {c d e : Cursor} {b : Below} {start : Span}

theorem sequence {item : Parser Expr} (h : ∀ c, ReadsExpr f c item) : ReadsExpr f c (Parser.sequence item) := by
  refine .bind (h c) fun first c₁ hf => .ifAt (fun _ => ?_) (.pure hf)
  refine .bind (.commaTail_items (fun _ => .startsExpr fun _ => .pure rfl) h) fun more _ hm => .previous <| .pure ?_
  exact (hf.append hm).close rfl (by simp) (.expr trivial)

theorem starred (h : b.Reads f) : ReadsExpr f c (Parser.starred b) := by
  refine .bind .expect fun star c₁ ⟨ht, hk⟩ => .bind (h.bitOr c₁) fun value _ hv => .pure ?_
  exact (ht.reads hk nofun).upto hv rfl (by simp) (.expr trivial)

theorem namedTest (h : b.Reads f) : ReadsExpr f c (Parser.namedTest b) := by
  refine .bind (h.test c) fun e c₁ he => .ifAt (fun _ => .ite (fun hn => ?_) fun _ => .failAt) (.pure he)
  refine .bind .next fun _ c₂ ht => .bind (h.test c₂) fun value _ hv => .pure ?_
  exact (he.move ht.moves).upto hv rfl (by simp) (.expr hn)

theorem starOrNamed (h : b.Reads f) : ReadsExpr f c (Parser.starOrNamed b) :=
  .ifAt (fun _ => .starred h) (.namedTest h)

theorem exprList (h : b.Reads f) : ReadsExpr f c (Parser.exprList b) :=
  .sequence fun _ => .starOrNamed h

theorem targetList (h : b.Reads f) : ReadsExpr f c (Parser.targetList b) :=
  .sequence fun c => .ifAt (fun _ => .starred h) (h.bitOr c)

theorem checkTarget {α : Type} {P : α → Cursor → Prop} {k : Unit → Parser α} {e : Expr}
    (h : e.IsTarget → Ends f c P (k ())) : Ends f c P (Parser.checkTarget e >>= k) := by
  have he : Ends f c (fun _ d => d = c ∧ e.IsTarget) (Parser.checkTarget e) := by
    unfold Parser.checkTarget
    split
    case h_1    => exact .failAt
    case h_2 he => exact .pure ⟨rfl, Expr.isTarget_of_unassignable? he⟩
  exact .bind he <| by rintro _ _ ⟨rfl, ht⟩; exact h ht

theorem annotated {allowed : Bool} (h : b.Reads f) :
    Ends f c (fun o d => c.Spans f (o.toList.map .expr) d) ( Parser.annotation b allowed) :=
  .ite (fun _ => .after_item h.test) fun _ => .pure <| .nil <| .refl c

theorem param {close : Kind} {allowed : Bool} (h : b.Reads f) {s : ParamsSoFar}
    (hs : e.Spans f (s.params.map .param) c) :
    Ends f c (fun s d => e.Spans f (s.params.map .param) d) (Parser.param b close allowed s) := by
  have hp : ∀ {p : Param Expr} {d}, c.Gets f (.param p) d → e.Spans f ((s.params ++ [p]).map .param) d :=
    fun hp => by simpa using hs.append hp.spans
  refine .here <| .ifAccept (fun _ _ ht _ => .pure <| hs.move ht.moves) <| .ifAccept ?keywords <| .ifAccept ?star ?plain
  case keywords =>
    refine fun t c₁ ht hk => .bind .ident_item fun name c₂ hn => .bind (.annotated h) fun _ _ ha => .previous <| .pure ?_
    exact hp <| (((ht.reads hk nofun).append hn.spans).append ha).opened.close rfl (by simp) .param
  case star =>
    refine fun t c₁ ht hk => .isAt <| .isAt <| .ite (fun _ => .pure <| hs.move ht.moves) fun _ => ?_
    refine .bind .ident_item fun name c₂ hn => .bind (.annotated h) fun _ _ ha => .previous <| .pure ?_
    exact hp <| (((ht.reads hk nofun).append hn.spans).append ha).opened.close rfl (by simp) .param
  case plain =>
    refine .bind .ident_item fun name c₁ hn => .bind (.annotated h) fun _ c₂ ha => .bind (.after_item h.test) ?_
    exact fun _ _ hd => .previous <| .pure <| hp <| ((hn.append ha).append hd).opened.close rfl (by simp) .param

theorem params {close : Kind} {allowed : Bool} (h : b.Reads f) :
    Ends f c (fun ps d => c.Spans f (ps.map .param) d) (Parser.params b close allowed) :=
  .bind (.foldItems_spans (fun _ _ => .param h) rfl) fun _ _ hs => .pure hs

theorem generators (h : b.Reads f) (hc : StartsGenerators c) :
    Ends f c (fun gs d => c.Spans f (gs.flatMap (·.exprs.map .expr)) d ∧ Comprehends gs) (Parser.generators b) := by
  refine .mono (.many_some (P := fun c g d => c.Spans f (g.exprs.map .expr) d ∧ g.target.IsTarget) hc fun c => ?_) ?_
  case refine_2 =>
    rintro gs d ⟨hs, hn⟩
    exact ⟨(hs.mono And.left).spans, hn, hs.forall_mem And.right⟩
  refine .isAt <| .isAt <| .ite (fun _ => ?_) fun hn => .pure ⟨.refl c, fun hs => ?_⟩
  case refine_2 =>
    have hn : c.kind? ≠ Keyword.kwAsync ∧ c.kind? ≠ Keyword.kwFor := by simpa using hn
    exact (hs.elim hn.right hn.left).elim
  -- The word `async` may be left out.
  refine (fun (hg : ∀ d, c.Moves f d → Ends f d _ _) =>
    .ite (fun _ => .bind .next fun _ d ht => hg d ht.moves) fun _ => hg c (.refl c)) fun d hm => ?_
  refine .bind .expect fun _ c₁ ⟨h₁, _⟩ => .bind (.targetList h) fun target c₂ ht => .checkTarget fun hp => ?_
  refine .bind .expect fun _ c₃ ⟨h₃, _⟩ => .bind (h.orTest c₃) fun iter c₄ hi => .bind (.many_after h.orTest) ?_
  have hg {cs e} (hs : c₄.Spans f (cs.map .expr) e) : c.Spans f ((target :: iter :: cs).map .expr) e := by
    simpa using .behind (hm.trans h₁.moves) (ht.spans.append <| .behind h₃.moves (hi.spans.append hs))
  exact fun _ _ hs => .pure ⟨⟨hg hs, hp⟩, nofun⟩

theorem ifStartsGenerators {α : Type} {P : α → Cursor → Prop} {p q : Parser α} (ht : StartsGenerators c → Ends f c P p)
    (hf : Ends f c P q) : Ends f c P (Parser.startsGenerators >>= fun b => if b then p else q) := by
  have hk {k : Bool → Parser α} (h : Ends f c P (k (c.kind? == some Keyword.kwFor || c.kind? == some Keyword.kwAsync))) :
      Ends f c P (Parser.startsGenerators >>= k) := h
  refine hk <| .ite (fun hs => ht ?_) fun _ => hf
  simpa [StartsGenerators] using hs

theorem startsKeywordArg {α : Type} {P : α → Cursor → Prop} {k : Bool → Parser α} (h : ∀ b, Ends f c P (k b)) :
    Ends f c P (Parser.startsKeywordArg >>= k) := by
  have hs : Ends f c (fun _ d => d = c) Parser.startsKeywordArg := by
    refine .get ?_
    split <;> exact .pure rfl
  exact .bind hs <| by rintro b _ rfl; exact h b

theorem argument (h : b.Reads f) {s : Arguments} (hs : e.Spans f s.items c) :
    Ends f c (fun s d => e.Spans f s.items d) (Parser.argument b s) := by
  have ha {x d} (hx : c.Gets f (.expr x) d) : e.Spans f (Arguments.items { s with args := s.args ++ [x] }) d := by
    refine (hs.append hx.spans).subset ?_
    simp [Arguments.items]
  have hk {k d} (hx : c.Gets f (.keyword k) d) : e.Spans f (Arguments.items { s with keywords := s.keywords ++ [k] }) d := by
    simpa [Arguments.items] using hs.append hx.spans
  refine .ifAt (fun hc => ?star) <| .ifAt (fun hc => ?stars) <| .startsKeywordArg fun _ => .ite (fun _ => ?byName) fun _ => ?_
  case star =>
    refine .bind .next fun t c₁ ht => .bind (h.test c₁) fun _ _ hv => .pure <| ha ?_
    exact (ht.reads (ht.kind hc) nofun).upto hv rfl (by simp) (.expr trivial)
  case stars =>
    refine .bind .next fun t c₁ ht => .bind (h.test c₁) fun _ _ hv => .pure <| hk ?_
    exact (ht.reads (ht.kind hc) nofun).upto hv rfl (by simp) .keyword
  case byName =>
    refine .bind .ident_item fun name c₁ hn => .bind .next fun _ c₂ ht => .bind (h.test c₂) fun _ _ hv => .pure <| hk ?_
    exact (hn.move ht.moves).upto hv rfl (by simp) .keyword
  refine .bind (.namedTest h) fun arg c₁ hx => .ifStartsGenerators (fun hg => ?_) (.pure <| ha hx)
  exact .bind (.generators h hg) fun _ _ hs => .previous <| .pure <| ha <| (hx.append hs.left).close rfl (by simp) (.expr hs.right)

theorem arguments (h : b.Reads f) : Ends f c (fun s d => c.Spans f s.items d) (Parser.arguments b) :=
  .foldItems_spans (fun _ _ => .argument h) rfl

theorem optionalTest (h : b.Reads f) :
    Ends f c (fun o d => c.Spans f (o.toList.map .expr) d) (Parser.optionalTest b) := by
  refine .startsExpr fun _ => .ite (fun _ => .bind (h.test c) fun _ _ he => .pure ?_) fun _ => .pure <| .nil <| .refl c
  exact he.spans

-- A slice begins at its lower end or at its colon.
theorem sliceTail (h : b.Reads f) {lower : Option Expr}
    (hl : ∀ t d, c.Takes f t d → t.kind = Mark.colon → e.Reads f start (lower.toList.map .expr) d) :
    Ends f c (fun x d => e.Gets f (.expr x) d) (Parser.sliceTail b start lower) := by
  refine .bind .expect fun t c₁ ⟨ht, hk⟩ => .bind (.optionalTest h) fun upper c₂ hu => ?_
  refine .bind (.after_spans fun _ => .optionalTest h) fun step c₃ hs => .previous <| .pure ?_
  have hs : c₂.Spans f (step.join.toList.map .expr) c₃ := by
    rcases step with _ | _ | _ <;> simpa using hs
  exact (((hl t c₁ ht hk).append hu).append hs).close rfl (by simp) (.expr trivial)

theorem subscriptItem (h : b.Reads f) : ReadsExpr f c (Parser.subscriptItem b) := by
  refine .here <| .ifAt (fun _ => .sliceTail h fun t d ht hk => ?_) <| .bind (.starOrNamed h) fun x c₁ hx => ?_
  case refine_1 => exact ht.here ▸ ht.reads hk nofun
  refine .ifAt (fun _ => .sliceTail h fun t d ht _ => ?_) (.pure hx)
  exact (hx.move ht.moves).opened

theorem subscriptList (h : b.Reads f) : ReadsExpr f c (Parser.subscriptList b) := by
  refine .bind (.subscriptItem h) fun first _ hf => .ifAt (fun _ => ?_) (.pure hf)
  refine .bind (.commaTail_items (fun _ => .stays) fun _ => .subscriptItem h) fun more _ hm => .previous <| .pure ?_
  exact (hf.append hm).close rfl (by simp) (.expr trivial)

theorem yieldExpr (h : b.Reads f) : ReadsExpr f c (Parser.yieldExpr b) := by
  refine .bind .expect fun t c₁ ⟨ht, hk⟩ => ?_
  have hr := ht.reads hk nofun
  refine .ifAccept (fun _ c₂ h₂ _ => ?_) <| .startsExpr fun _ => .ite (fun _ => ?_) fun _ => .previous <| .pure ?_
  case refine_1 => exact .bind (h.test c₂) fun _ _ hv => .pure <| (hr.move h₂.moves).upto hv rfl (by simp) (.expr trivial)
  case refine_2 =>
    exact .bind (.exprList h) fun _ _ hv => .previous <| .pure <| (hr.append hv.spans).close rfl (by simp) (.expr trivial)
  case refine_3 => exact hr.close rfl (by simp) (.expr trivial)

-- What follows an opening bracket belongs to what the bracket begins.

theorem parenAtom (h : b.Reads f) (hs : e.Reads f start [] c) :
    Ends f c (fun x d => e.Gets f (.expr x) d) (Parser.parenAtom b start) := by
  refine .ifAt (fun _ => ?empty) <| .ifAt (fun _ => ?yield) <| .bind (.starOrNamed h) fun first c₁ hf => ?_
  case empty => exact .bind .next fun _ _ ht => .pure <| hs.enclose ht rfl (by simp) (.expr trivial)
  case yield =>
    exact .bind (.yieldExpr h) fun _ _ hv => .bind .expect fun _ _ ht => .pure <| (hs.behind hv).move ht.left.moves
  refine .ifStartsGenerators (fun hg => ?generator) <| .ifAt (fun _ => ?tuple) <| .bind .expect fun _ _ ht => .pure ?_
  case generator =>
    refine .bind (.generators h hg) fun gs _ ⟨hg, hc⟩ => .bind .expect fun _ _ ⟨ht, _⟩ => .pure ?_
    exact (hs.append <| hf.spans.append hg).enclose ht rfl (by simp) (.expr hc)
  case tuple =>
    refine .bind (.commaTail_items (fun _ => .stays) fun _ => .starOrNamed h) fun more _ hm => ?_
    exact .bind .expect fun _ _ ⟨ht, _⟩ => .pure <| (hs.append <| hf.spans.append hm).enclose ht rfl (by simp) (.expr trivial)
  exact (hs.behind hf).move ht.left.moves

theorem listAtom (h : b.Reads f) (hs : e.Reads f start [] c) :
    Ends f c (fun x d => e.Gets f (.expr x) d) (Parser.listAtom b start) := by
  refine .ifAt (fun _ => ?empty) <| .bind (.starOrNamed h) fun first c₁ hf => .ifStartsGenerators (fun hg => ?comp) ?_
  case empty => exact .bind .next fun _ _ ht => .pure <| hs.enclose ht rfl (by simp) (.expr trivial)
  case comp =>
    refine .bind (.generators h hg) fun gs _ ⟨hg, hc⟩ => .bind .expect fun _ _ ⟨ht, _⟩ => .pure ?_
    exact (hs.append <| hf.spans.append hg).enclose ht rfl (by simp) (.expr hc)
  refine .bind (.commaTail_items (fun _ => .stays) fun _ => .starOrNamed h) fun more _ hm => ?_
  exact .bind .expect fun _ _ ⟨ht, _⟩ => .pure <| (hs.append <| hf.spans.append hm).enclose ht rfl (by simp) (.expr trivial)

theorem dictEntry (h : b.Reads f) : Ends f c (fun x d => c.Spans f (x.exprs.map .expr) d) (Parser.dictEntry b) := by
  refine .ifAccept (fun _ c₁ ht _ => ?_) <| .bind (h.test c) fun key c₁ hk => .bind .expect fun _ c₂ ⟨ht, _⟩ => ?_
  case refine_1 => exact .bind (h.bitOr c₁) fun _ _ he => .pure <| .behind ht.moves he.spans
  exact .bind (h.test c₂) fun _ _ hv => .pure <| hk.spans.append <| .behind ht.moves hv.spans

theorem dictTail (h : b.Reads f) {first : DictEntry Expr} (hs : e.Reads f start (first.exprs.map .expr) c) :
    Ends f c (fun x d => e.Gets f (.expr x) d) (Parser.dictTail b start first) := by
  refine .bind (.commaTail (P := fun c x d => c.Spans f (x.exprs.map .expr) d) (fun _ => .stays) fun _ _ hm => ?_) ?_
  case refine_1 => exact .mono (.dictEntry h) fun _ _ => .behind hm
  case refine_2 =>
    exact fun more _ hm => .bind .expect fun _ _ ⟨ht, _⟩ =>
      .pure <| (hs.append hm.spans).enclose ht rfl (by simp) (.expr (by simp [Expr.WellFormed]))

theorem braceAtom (h : b.Reads f) (hs : e.Reads f start [] c) :
    Ends f c (fun x d => e.Gets f (.expr x) d) (Parser.braceAtom b start) := by
  refine .ifAt (fun _ => ?empty) <| .ifAccept (fun _ c₁ h₁ _ => ?unpack) <| .bind (.starOrNamed h) fun first c₁ hf => ?_
  case empty => exact .bind .next fun _ _ ht => .pure <| hs.enclose ht rfl (by simp) (.expr rfl)
  case unpack =>
    exact .bind (h.bitOr c₁) fun _ _ he => .dictTail h <| (hs.move h₁.moves).append he.spans
  refine .ifAccept (fun _ c₂ h₂ _ => ?colon) <| .ifStartsGenerators (fun hg => ?comp) ?_
  case colon =>
    refine .bind (h.test c₂) fun value c₃ hv => ?_
    have hv := hf.spans.append <| .behind h₂.moves hv.spans
    refine .ifStartsGenerators (fun hg => ?_) (.dictTail h <| hs.append hv)
    refine .bind (.generators h hg) fun gs _ ⟨hg, hc⟩ => .bind .expect fun _ _ ⟨ht, _⟩ => .pure ?_
    exact (hs.append <| hv.append hg).enclose ht rfl (by simp) (.expr hc)
  case comp =>
    refine .bind (.generators h hg) fun gs _ ⟨hg, hc⟩ => .bind .expect fun _ _ ⟨ht, _⟩ => .pure ?_
    exact (hs.append <| hf.spans.append hg).enclose ht rfl (by simp) (.expr hc)
  refine .bind (.commaTail_items (fun _ => .stays) fun _ => .starOrNamed h) fun more _ hm => ?_
  exact .bind .expect fun _ _ ⟨ht, _⟩ => .pure <| (hs.append <| hf.spans.append hm).enclose ht rfl (by simp) (.expr trivial)

theorem adjacent {body? : Kind → Option String} (hb : body? .dedent = none) :
    Ends f c (Repeats f (Joins f Prod.snd) c) (Parser.adjacent body?) := by
  refine .many fun c => .peek ?_
  split
  case h_1 body hk =>
    refine .bind .next fun t d ht => .some fun hz => hz.join <| ht.start fun hd => ?_
    rw [ht.kind?, hd] at hk
    exact nomatch hb.symm.trans hk
  case h_2 => exact .none <| .refl c

-- Literals next to each other are one constant.
theorem literals {make : String → Constant} {body? : Kind → Option String} {body : String} (hb : body? .dedent = none)
    (hs : e.Reads f start [] c) :
    Ends f c (fun x d => e.Gets f (.expr x) d) (return joinLiterals make body start (← Parser.adjacent body?)) :=
  .bind (.adjacent hb) fun _ _ hr => .pure <| (hr.join hs).leaf rfl (.expr trivial)

theorem atom (h : b.Reads f) : ReadsExpr f c (Parser.atom b) := by
  refine .bind .next fun t d ht => ?_
  split
  case h_6 hk | h_7 hk    => exact .literals rfl (ht.reads hk nofun)
  case h_12 hk            => exact .parenAtom h (ht.reads hk nofun)
  case h_13 hk            => exact .listAtom h (ht.reads hk nofun)
  case h_14 hk            => exact .braceAtom h (ht.reads hk nofun)
  case h_15 | h_16 | h_17 | h_18 => exact .failAt
  all_goals
    rename_i hk
    exact .pure <| (ht.reads hk nofun).leaf rfl (.expr trivial)

end Ends

-- What is read next makes another expression of the one that stands before it.
def Extends {α : Type} (f : ℕ →o ℕ) (g : Expr → α → Expr) (c : Cursor) (y : α) (d : Cursor) : Prop :=
  ∀ {a : Cursor} {x}, a.Gets f (.expr x) c → a.Gets f (.expr (g x y)) d

theorem Repeats.foldl {α : Type} {g : Expr → α → Expr} {a c d : Cursor} {x : Expr} {ys : List α}
    (h : Repeats f (Extends f g) c ys d) (hx : a.Gets f (.expr x) c) : a.Gets f (.expr (ys.foldl g x)) d := by
  induction h generalizing x
  case nil h        => exact hx.move h
  case cons h _ hi  => exact hi (h hx)

namespace Ends

variable {c d e : Cursor} {b : Below}

theorem trailer (h : b.Reads f) : Ends f c (Optionally f (Extends f Trailer.apply c) c) (Parser.trailer b) := by
  refine .ifAccept (fun _ c₁ h₁ _ => ?call) <| .ifAccept (fun _ c₁ h₁ _ => ?subscript) ?_
  case call =>
    refine .bind (.arguments h) fun args c₂ ha => .bind .expect fun _ _ ⟨ht, _⟩ => .some fun hx => ?_
    exact ((hx.move h₁.moves).append ha).enclose ht rfl (List.Subset.refl _) (.expr trivial)
  case subscript =>
    refine .bind (.subscriptList h) fun index c₂ hi => .bind .expect fun _ _ ⟨ht, _⟩ => .some fun hx => ?_
    exact ((hx.move h₁.moves).append hi.spans).enclose ht rfl (List.Subset.refl _) (.expr trivial)
  refine .ifAccept (fun _ c₁ h₁ _ => .bind .ident_item fun name _ hn => .some fun hx => ?_) (.none <| .refl c)
  exact (hx.move h₁.moves).upto hn rfl (List.Subset.refl _) (.expr trivial)

theorem primary (h : b.Reads f) : ReadsExpr f c (Parser.primary b) :=
  .bind (.atom h) fun _ _ he => .bind (.many fun _ => .trailer h) fun _ _ ht => .pure <| ht.foldl he

theorem awaited (h : b.Reads f) : ReadsExpr f c (Parser.awaited b) := by
  refine .ifAt (fun hc => .bind .next fun _ c₁ ht => ?_) (.primary h)
  exact .bind (.primary h) fun _ _ hv => .pure <| (ht.reads (ht.kind hc) nofun).upto hv rfl (by simp) (.expr trivial)

theorem power (h : b.Reads f) : ReadsExpr f c (Parser.power b) := by
  refine .bind (.awaited h) fun base c₁ hb => .ifAccept (fun _ c₂ ht _ => ?_) (.pure hb)
  exact .bind (h.factor c₂) fun _ _ he => .pure <| (hb.move ht.moves).upto he rfl (by simp) (.expr trivial)

theorem factor (h : b.Reads f) : ReadsExpr f c (Parser.factor b) := by
  refine .peek ?_
  split
  case h_1 op hk =>
    refine .bind .next fun t c₁ ht => .bind (h.factor c₁) fun _ _ hx => .pure ?_
    refine (ht.start fun hd => ?_).upto hx rfl (by simp) (.expr trivial)
    rw [ht.kind?, hd] at hk
    exact nomatch hk
  case h_2 => exact .power h

theorem binaryLevel {op? : Kind → Option BinaryOp} {operand : Parser Expr} (h : ∀ c, ReadsExpr f c operand) :
    ReadsExpr f c (Parser.binaryLevel op? operand) := by
  refine .bind (h c) fun first c₁ hf => .bind (.many fun c => .peek ?_) fun _ _ hm => .pure <| hm.foldl hf
  split
  case h_1 => 
    refine .bind .next fun _ c₂ ht => .bind (h c₂) fun _ _ hx => .some fun hl => ?_
    exact (hl.move ht.moves).upto hx rfl (by simp) (.expr trivial)
  case h_2 => exact .none <| .refl c

theorem bitOr (h : b.Reads f) : ReadsExpr f c (Parser.bitOr b) :=
  .binaryLevel fun _ => .binaryLevel fun _ => .binaryLevel fun _ => .binaryLevel fun _ => .binaryLevel fun _ =>
    .binaryLevel fun _ => .factor h

theorem compareOp : Ends f c (fun _ d => c.Moves f d) Parser.compareOp := by
  have hs : ∀ {d} {op : CompareOp}, c.Moves f d → Ends f d (fun _ e => c.Moves f e) (do let _ ← Parser.next; return some op) :=
    fun hm => .bind .next fun _ _ ht => .pure <| hm.trans ht.moves
  have hd : ∀ {op : CompareOp}, Ends f c (fun _ e => c.Moves f e) (do let _ ← Parser.next; let _ ← Parser.next; return some op) :=
    .bind .next fun _ _ ht => hs ht.moves
  refine .get ?_
  split
  case h_8  => exact .ite (fun _ => hd) fun _ => .pure <| .refl c
  case h_9  => exact .ite (fun _ => hd) fun _ => hs <| .refl c
  case h_10 => exact .pure <| .refl c
  all_goals exact hs <| .refl c

theorem comparison (h : b.Reads f) : ReadsExpr f c (Parser.comparison b) := by
  refine .bind (.bitOr h) fun left c₁ hl => .bind (.many (P := fun c l d => c.Spans f [.expr l.snd] d) fun c => ?_) ?_
  case refine_1 =>
    refine .bind .compareOp fun o c₂ hm => ?_
    cases o
    case some => exact .bind (.bitOr h) fun _ _ hx => .some <| .behind hm hx.spans
    case none => exact .none hm
  case refine_2 =>
    refine fun links c₂ hs => .ite (fun _ => .pure <| hl.move hs.spans.moves) fun hn => .previous <| .pure ?_
    refine (hl.append hs.spans_map).close rfl (by simp) <| .expr ⟨by simp, ?_⟩
    rw [List.length_map]
    exact List.length_pos_iff.mpr <| by simpa using hn

theorem notTest (h : b.Reads f) : ReadsExpr f c (Parser.notTest b) := by
  refine .ifAt (fun hc => .bind .next fun _ c₁ ht => .bind (h.notTest c₁) fun _ _ hx => .pure ?_) (.comparison h)
  exact (ht.reads (ht.kind hc) nofun).upto hx rfl (by simp) (.expr trivial)

theorem boolLevel {word : Keyword} {op : BoolOp} {operand : Parser Expr} (h : ∀ c, ReadsExpr f c operand) :
    ReadsExpr f c (Parser.boolLevel word op operand) := by
  let P (c : Cursor) (x : Expr) (d : Cursor) : Prop := ∃ c₁, c.Moves f c₁ ∧ c₁.Gets f (.expr x) d
  refine .bind (h c) fun first c₁ hf => .bind (.many (P := P) fun c => .after fun _ c₂ ht _ => ?_) fun more d hm => ?_
  case refine_1 => exact (h c₂).mono fun _ _ hx => ⟨c₂, ht.moves, hx⟩
  split
  case h_1 last hl =>
    obtain ⟨init, c₂, c₄, rfl, hi, ⟨c₃, hm, hx⟩, he⟩ := hm.getLast? hl
    have hi : c₁.Spans f (init.map .expr) c₂ := (hi.mono fun hs => hs.elim fun _ h => .behind h.left h.right.spans).spans_map
    exact .pure <| (((hf.append hi).move hm).upto hx rfl (by simp) (.expr (by simp [Expr.WellFormed]))).move he
  case h_2 => exact .pure <| hf.move <| hm.moves fun hs => hs.elim fun _ h => h.left.trans h.right.moves

theorem orTest (h : b.Reads f) : ReadsExpr f c (Parser.orTest b) :=
  .boolLevel fun _ => .boolLevel fun _ => .notTest h

theorem lambda (h : b.Reads f) : ReadsExpr f c (Parser.lambda b) := by
  refine .bind .expect fun _ c₁ ⟨h₁, hk⟩ => .bind (.params h) fun params c₂ hp => .bind .expect fun _ c₃ ⟨h₃, _⟩ => ?_
  refine .bind (h.test c₃) fun body _ hx => .pure ?_
  exact (((h₁.reads hk nofun).append hp).move h₃.moves).upto hx rfl (by simp) (.expr trivial)

theorem test (h : b.Reads f) : ReadsExpr f c (Parser.test b) := by
  refine .ifAt (fun _ => .lambda h) <| .bind (.orTest h) fun body c₁ hb => .ifAccept (fun _ c₂ h₂ _ => ?_) (.pure hb)
  refine .bind (.orTest h) fun condition c₃ hc => .bind .expect fun _ c₄ ⟨h₄, _⟩ => .bind (h.test c₄) fun _ _ ho => .pure ?_
  refine (((hb.move h₂.moves).append hc.spans).move h₄.moves).upto ho rfl ?_ (.expr trivial)
  simp

end Ends
end Parser

-- Whatever the depth.
theorem Below.reads_ofDepth (depth : Nat) : (Below.ofDepth depth).Reads f := by
  induction depth
  case zero => exact ⟨fun _ => .fail, fun _ => .fail, fun _ => .fail, fun _ => .fail, fun _ => .fail⟩
  case succ hi => exact ⟨fun _ => .test hi, fun _ => .orTest hi, fun _ => .notTest hi, fun _ => .bitOr hi, fun _ => .factor hi⟩

end PyVerify
