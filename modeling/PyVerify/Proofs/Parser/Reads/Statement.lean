import PyVerify.Parser.Statement
import PyVerify.Proofs.Parser.Reads.Pattern

namespace PyVerify.Parser

open Token (Kind Keyword Mark)

variable {f : ℕ →o ℕ} {c d e : Cursor} {start : Span} {is : List Item}

-- A statement was read that still lacks its place.
def Forms (f : ℕ →o ℕ) (c : Cursor) (form : Span → Stmt) (d : Cursor) : Prop :=
  ∃ is, c.Reads f c.here is d ∧ ∀ z, (form z).span = z ∧ (Item.stmt (form z)).parts ⊆ is ∧ (Item.stmt (form z)).Proper f

theorem Forms.intro {a : Span} {form : Span → Stmt} (hz : ∀ z, (form z).span = z ∧ (Item.stmt (form z)).blocks = [])
    (hi : ∀ z, (Item.stmt (form z)).parts ⊆ is) (hw : ∀ z, (form z).WellFormed) (h : c.Reads f a is d) : Forms f c form d :=
  ⟨is, h.opened, fun z => ⟨(hz z).left, hi z, hw z, by simp [(hz z).right]⟩⟩

-- A construct begins at this place, with these items in it, once the next token is taken.
def Begins (f : ℕ →o ℕ) (e : Cursor) (start : Span) (is : List Item) (c : Cursor) : Prop :=
  ∀ t d, c.Takes f t d → t.kind ≠ .dedent → e.Reads f start is d

theorem Begins.here : Begins f c c.here [] c :=
  fun _ _ ht hk => ht.here ▸ ht.start hk

theorem Begins.of_reads (h : e.Reads f start is c) : Begins f e start is c :=
  fun _ _ ht _ => h.move ht.moves

theorem splitLast_append {first : Expr} {more : List Expr} :
    (splitLast first more).fst ++ [(splitLast first more).snd] = first :: more := by
  induction more generalizing first
  case nil      => rfl
  case cons hi  => exact congrArg (first :: ·) hi

theorem splitLast_ne_nil {first : Expr} {more : List Expr} (h : more ≠ []) : (splitLast first more).fst ≠ [] := by
  cases more
  case nil  => exact (h rfl).elim
  case cons => exact nofun

theorem deleteTargets_spans {x : Expr} (h : c.Spans f [.expr x] d) : c.Spans f ((deleteTargets x).map .expr) d := by
  unfold deleteTargets
  split
  case h_1 => exact h.parts
  case h_2 => exact h

namespace Ends

variable {b : Below}

-- Names joined by dots are one stretch.
theorem dottedName : Ends f c (fun i d => c.Reads f i.span [] d) Parser.dottedName := by
  refine .bind .ident fun first c₁ hf => .bind (.many (P := Joins f Ident.span) fun c => ?_) fun more _ hm => .pure ?_
  case refine_1 => exact .after fun _ _ ht _ => .mono .ident fun _ _ hi _ _ hz => (hz.move ht.moves).join (hi.start nofun)
  have hs : ∀ {more : List Ident} {i : Ident}, (more.foldl (fun name part =>
      (⟨name.text ++ "." ++ part.text, name.span.join part.span⟩ : Ident)) i).span =
        more.foldl (fun z part => z.join part.span) i.span := by
    intro more i
    induction more generalizing i
    case nil => rfl
    case cons hi => exact hi
  rw [hs]
  exact hm.join (hf.start nofun)

theorem aliasOf {name : Parser Ident} (h : Ends f c (fun i d => c.Reads f i.span [] d) name) :
    Ends f c (fun a d => c.Gets f (.imported a) d) (Parser.aliasOf name) := by
  refine .bind h fun i c₁ hi => .bind (.after_item fun _ => .ident_item) fun _ _ hr => .previous <| .pure ?_
  exact (hi.append hr).close rfl (by simp) .imported

theorem ident_reads : Ends f c (fun i d => c.Reads f i.span [] d) Parser.ident :=
  Ends.ident.mono fun _ _ h => h.start nofun

theorem importedNames : Ends f c (fun names d => c.Spans f (names.map .imported) d) Parser.importedNames := by
  refine .ifAt (fun hc => .bind .next fun t _ ht => .pure ?_) <| .ifAccept (fun _ c₁ h₁ _ => ?_) ?_
  case refine_1 =>
    exact ((ht.reads (ht.kind hc) nofun).leaf rfl .imported : c.Gets f (.imported ⟨t.span, "*", none⟩) _).spans
  case refine_2 =>
    refine .bind (.collect fun _ => .spans <| .aliasOf .ident_reads) fun names c₂ hn => ?_
    exact .bind .expect fun _ _ ⟨ht, _⟩ => .pure <| .behind h₁.moves <| hn.move ht.moves
  refine .bind (.aliasOf .ident_reads) fun first c₁ hf => .bind (.commaTail_items (fun _ => .pure rfl) fun _ => .aliasOf .ident_reads) ?_
  exact fun more _ hm => .pure <| hf.spans.append hm

theorem importFrom : Ends f c (Forms f c) Parser.importFrom := by
  refine .bind .expect fun _ c₁ ⟨h₁, hk⟩ => .bind (.many (P := fun c _ d => c.Moves f d) fun c => .peek ?_) ?_
  case refine_1 =>
    split
    case h_1 => exact .bind .next fun _ _ ht => .some ht.moves
    case h_2 => exact .none <| .refl c
  refine fun groups c₂ hg => .peek ?_
  have hr := (h₁.reads hk nofun).move (hg.moves id)
  split
  case' h_1 => refine .bind .dottedName fun _ c₃ hm => ?_
  case' h_1 => replace hr := hr.move hm.moves
  all_goals
    refine .ite (fun _ => .fail) fun _ => .bind .expect fun _ _ ⟨h₄, _⟩ => .bind .importedNames fun names _ hn => .pure ?_
    exact .intro (fun _ => ⟨rfl, rfl⟩) (by simp) (fun _ => trivial) <| hr.append <| .behind h₄.moves hn

theorem nameList : Ends f c (fun names d => c.Spans f (names.map .ident) d) Parser.nameList := by
  refine .bind .ident_item fun first c₁ hf => .bind (.commaTail_items (fun _ => .pure rfl) fun _ => .ident_item) ?_
  exact fun more _ hm => .pure <| hf.spans.append hm

theorem exprListOrYield (h : b.Reads f) : ReadsExpr f c (Parser.exprListOrYield b) :=
  .ifAt (fun _ => .yieldExpr h) (.exprList h)

-- What bounds a type parameter is read and left out.
theorem typeParam (h : b.Reads f) : Ends f c (fun i d => c.Spans f [.ident i] d) (Parser.typeParam b) := by
  have hn {d} (hm : c.Moves f d) : Ends f d (fun i e => c.Spans f [.ident i] e) (do
      let name ← Parser.ident
      let _ ← Parser.after Mark.colon b.test
      let _ ← Parser.after Mark.assign b.test
      return name) := by
    refine .bind .ident_item fun name _ hn => .bind (.after_item h.test) fun _ _ h₂ => .bind (.after_item h.test) fun _ _ h₃ => ?_
    exact .pure <| .behind hm <| hn.spans.move <| h₂.moves.trans h₃.moves
  exact .bind .accepts fun _ _ hm => .ite (fun _ => .bind .accepts fun _ _ hs => hn <| hm.trans hs) fun _ => hn hm

theorem typeParams (h : b.Reads f) : Ends f c (fun names d => c.Spans f (names.map .ident) d) (Parser.typeParams b) := by
  refine .ifAccept (fun _ c₁ h₁ _ => ?_) (.pure <| .nil <| .refl c)
  refine .bind (.collect fun _ => .typeParam h) fun names c₂ hn => ?_
  exact .bind .expect fun _ _ ⟨ht, _⟩ => .pure <| .behind h₁.moves <| hn.move ht.moves

theorem typeAlias (h : b.Reads f) {text : String} (hc : c.kind? = some (.name text)) : Ends f c (Forms f c) (Parser.typeAlias b) := by
  refine .bind .next fun t c₁ ht => .bind .ident_item fun name c₂ hn => .bind (.typeParams h) fun names c₃ hp => ?_
  refine .bind .expect fun _ c₄ ⟨h₄, _⟩ => .bind (h.test c₄) fun _ _ hv => .pure ?_
  have hr := (((ht.reads (ht.kind hc) nofun).append hn.spans).append hp).append <| .behind h₄.moves hv.spans
  exact .intro (fun _ => ⟨rfl, rfl⟩) (by simp) (fun _ => trivial) hr

theorem startsTypeAlias {α : Type} {P : α → Cursor → Prop} {p q : Parser α}
    (ht : c.kind? = some (.name "type") → Ends f c P p) (hf : Ends f c P q) :
    Ends f c P (Parser.startsTypeAlias >>= fun b => if b then p else q) := by
  have hs : Ends f c (fun b d => d = c ∧ (b = true → c.kind? = Option.some (.name "type"))) Parser.startsTypeAlias := by
    refine .get ?_
    split
    case h_1 hk _ _ | h_2 hk _ _ => exact .pure ⟨rfl, fun _ => hk⟩
    case h_3 => exact .pure ⟨rfl, nofun⟩
  refine .bind hs ?_
  rintro b _ ⟨rfl, hb⟩
  exact .ite (fun h => ht (hb h)) fun _ => hf

theorem checkTargets {α : Type} {P : α → Cursor → Prop} {k : Unit → Parser α} {es : List Expr}
    (h : (∀ e ∈ es, e.IsTarget) → Ends f c P (k ())) : Ends f c P (es.forM Parser.checkTarget >>= k) := by
  have he : Ends f c (fun _ d => d = c ∧ ∀ e ∈ es, e.IsTarget) (es.forM Parser.checkTarget) := by
    clear h
    induction es
    case nil => exact .pure ⟨rfl, List.forall_mem_nil _⟩
    case cons hi =>
      exact .checkTarget fun ht => hi.mono fun _ _ hs => hs.imp_right (List.forall_mem_cons.mpr ⟨ht, ·⟩)
  exact .bind he <| by rintro _ _ ⟨rfl, ht⟩; exact h ht

theorem exprStmt (h : b.Reads f) : Ends f c (Forms f c) (Parser.exprStmt b) := by
  refine .bind (.exprListOrYield h) fun first c₁ hf => .peek ?_
  split
  case h_1 op _ =>
    refine .bind .next fun _ c₂ ht => .ite (fun hp => .bind (.exprListOrYield h) fun value _ hv => .pure ?_) fun _ => .failAt
    exact .intro (fun _ => ⟨rfl, rfl⟩) (by simp) (fun _ => hp) <| (hf.move ht.moves).append hv.spans
  case h_2 =>
    refine .ifAccept (fun _ c₂ h₂ _ => .checkTarget fun ht => .bind (h.test c₂) fun annotation c₃ ha => ?_) ?_
    case refine_1 =>
      refine .bind (.after_item fun _ => .exprListOrYield h) fun value _ hv => .pure ?_
      exact .intro (fun _ => ⟨rfl, rfl⟩) (by simp) (fun _ => ht) <| ((hf.move h₂.moves).append ha.spans).append hv
    case refine_2 =>
      refine .bind (.many_after fun _ => .exprListOrYield h) fun more _ hm => .ite (fun _ => .pure ?_) fun hn => ?_
      case refine_1 => exact .intro (fun _ => ⟨rfl, rfl⟩) (by simp) (fun _ => trivial) <| hf.append hm
      refine .checkTargets fun ht => .pure <| .intro (fun _ => ⟨rfl, rfl⟩) (fun _ => ?_) (fun _ => ?_) <| hf.append hm
      case refine_1 =>
        simp only [Item.parts, Item.ofStmt]
        rw [← List.map_singleton (f := Item.expr), ← List.map_append, splitLast_append]
        exact List.Subset.refl _
      case refine_2 => exact ⟨splitLast_ne_nil <| by simpa using hn, ht⟩

theorem smallForm (h : b.Reads f) : Ends f c (Forms f c) (Parser.smallForm b) := by
  refine .peek ?_
  split
  case h_1 hk | h_2 hk | h_3 hk =>
    exact .bind .next fun _ _ ht =>
      .pure <| .intro (fun _ => ⟨rfl, rfl⟩) (by simp) (fun _ => trivial) <| ht.reads (ht.kind hk) nofun
  case h_4 hk =>
    refine .bind .next fun _ c₁ ht => .startsExpr fun _ => .ite (fun _ => .bind (.exprList h) fun _ _ hv => .pure ?_) fun _ => .pure ?_
    case refine_1 => exact .intro (fun _ => ⟨rfl, rfl⟩) (by simp) (fun _ => trivial) <| (ht.reads (ht.kind hk) nofun).append hv.spans
    case refine_2 => exact .intro (fun _ => ⟨rfl, rfl⟩) (by simp) (fun _ => trivial) <| ht.reads (ht.kind hk) nofun
  case h_5 hk =>
    refine .bind .next fun _ c₁ ht => .bind (.targetList h) fun x _ hx => .checkTargets fun hp => .pure ?_
    exact .intro (fun _ => ⟨rfl, rfl⟩) (by simp) (fun _ => hp) <| (ht.reads (ht.kind hk) nofun).append <| deleteTargets_spans hx.spans
  case h_6 hk =>
    refine .bind .next fun _ c₁ ht => .startsExpr fun _ => .ite (fun _ => ?_) fun _ => .pure ?_
    case refine_2 => exact .intro (fun _ => ⟨rfl, rfl⟩) (by simp) (fun _ => trivial) <| ht.reads (ht.kind hk) nofun
    refine .bind (h.test c₁) fun _ _ he => .bind (.after_item h.test) fun _ _ hc => .pure ?_
    exact .intro (fun _ => ⟨rfl, rfl⟩) (by simp) (fun _ => trivial) <| ((ht.reads (ht.kind hk) nofun).append he.spans).append hc
  case h_7 hk | h_8 hk =>
    exact .bind .next fun _ _ ht => .bind .nameList fun _ _ hn =>
      .pure <| .intro (fun _ => ⟨rfl, rfl⟩) (by simp) (fun _ => trivial) <| (ht.reads (ht.kind hk) nofun).append hn
  case h_9 hk =>
    refine .bind .next fun _ c₁ ht => .bind (h.test c₁) fun _ _ hx => .bind (.after_item h.test) fun _ _ hm => .pure ?_
    exact .intro (fun _ => ⟨rfl, rfl⟩) (by simp) (fun _ => trivial) <| ((ht.reads (ht.kind hk) nofun).append hx.spans).append hm
  case h_10 hk =>
    refine .bind .next fun _ c₁ ht => .bind (.aliasOf .dottedName) fun first c₂ hf => ?_
    refine .bind (.commaTail_items (fun _ => .pure rfl) fun _ => .aliasOf .dottedName) fun more _ hm => .pure ?_
    exact .intro (fun _ => ⟨rfl, rfl⟩) (by simp) (fun _ => trivial) <| ((ht.reads (ht.kind hk) nofun).append hf.spans).append hm
  case h_11 => exact .importFrom
  case h_12 => exact .startsTypeAlias (.typeAlias h) (.exprStmt h)

theorem smallStmt (h : b.Reads f) : Ends f c (fun s d => c.Gets f (.stmt s) d) (Parser.smallStmt b) := by
  refine .here <| .bind (.smallForm h) fun form d ⟨_, hr, hf⟩ => .previous <| .pure ?_
  obtain ⟨hz, hi, hp⟩ := hf (c.here.join d.previous)
  exact hr.close hz hi hp

theorem endOfLine : Ends f c (fun _ d => c.Moves f d) Parser.endOfLine := by
  refine .ifAccept (fun _ _ ht _ => .pure ht.moves) <| .isAt <| .isAt <| .ite (fun _ => .pure <| .refl c) fun _ => .fail

end Ends

-- A parser for blocks.
abbrev ReadsBlock (f : ℕ →o ℕ) (c : Cursor) (p : Parser (List Stmt)) : Prop :=
  Ends f c (c.Blocks f) p

namespace Ends

variable {b : Below} {nested : Parser (List Stmt)} {ds : List Expr}

theorem simpleStmts (h : b.Reads f) : ReadsBlock f c (Parser.simpleStmts b) := by
  refine .bind (.smallStmt h) fun first c₁ hf => .bind (.many (P := fun c s d => c.Blocks f [s] d) fun c => ?_) ?_
  case refine_1 =>
    refine .ifAccept (fun _ _ ht _ => .isAt <| .isAt <| .ite (fun _ => .none ht.moves) fun _ => ?_) (.none <| .refl c)
    exact .bind (.smallStmt h) fun _ _ hs => .some <| .behind ht.moves <| .single hs
  case refine_2 =>
    refine fun more c₂ hm => .bind .endOfLine fun _ _ he => .pure ?_
    have hm := List.flatMap_singleton' more ▸ hm.flatMap
    exact (Cursor.Blocks.single hf).append (hm.move he)

theorem blockItems {α : Type} {P : Cursor → α → Cursor → Prop} {item : Parser α} (h : ∀ c, Ends f c (P c) item)
    (hp : ∀ {c d e a}, c.Moves f d → P d a e → P c a e) : Ends f c (Repeats f P c) (Parser.blockItems item) := by
  refine .many fun c => .bind .skipNewlines fun _ d hm => .ifAccept (fun _ _ ht _ => .none <| hm.trans ht.moves) ?_
  exact .ifAt (fun _ => .none hm) <| .bind (h d) fun _ _ ha => .some <| hp hm ha

theorem suite (h : b.Reads f) (hs : ∀ c, ReadsBlock f c nested) : ReadsBlock f c (Parser.suite b nested) := by
  refine .ifAccept (fun _ c₁ h₁ _ => .bind .skipNewlines fun _ c₂ h₂ => .ifAccept (fun _ c₃ h₃ _ => ?_) .fail) (.simpleStmts h)
  refine .bind (.blockItems hs .behind) fun blocks _ hb => .pure ?_
  exact .behind ((h₁.moves.trans h₂).trans h₃.moves) <| List.flatMap_id (L := blocks) ▸ hb.flatMap

theorem body (h : b.Reads f) (hs : ∀ c, ReadsBlock f c nested) : ReadsBlock f c (Parser.body b nested) :=
  .bind .expect fun _ _ ⟨ht, _⟩ => .mono (.suite h hs) fun _ _ => .behind ht.moves

theorem optionalBody {word : Keyword} (h : b.Reads f) (hs : ∀ c, ReadsBlock f c nested) :
    ReadsBlock f c (Parser.optionalBody b nested word) := by
  refine .bind (.after (P := c.Blocks f) fun _ _ ht _ => .mono (.body h hs) fun _ _ => .behind ht.moves) fun o _ ho => .pure ?_
  cases o
  case none => exact .nil ho
  case some => exact ho

theorem functionDef {isAsync : Bool} (h : b.Reads f) (hs : ∀ c, ReadsBlock f c nested)
    (hd : Begins f e start (ds.map .expr) c) :
    Ends f c (fun s d => e.Gets f (.stmt s) d) (Parser.functionDef b nested start ds isAsync) := by
  refine .bind .expect fun t c₁ ⟨ht, hk⟩ => .bind .ident_item fun name c₂ hn => .bind .expect fun _ c₃ ⟨h₃, _⟩ => ?_
  refine .bind (.params h) fun params c₄ hp => .bind .expect fun _ c₅ ⟨h₅, _⟩ => .bind (.after_item h.test) fun returns c₆ hr => ?_
  refine .bind (.body h hs) fun block _ hb => .previous <| .pure ?_
  have hp := ((Cursor.Spans.behind h₃.moves hp).move h₅.moves).append (hr.append hb.spans)
  have hd := ((hd t c₁ ht (hk ▸ nofun)).append hn.spans).append hp
  refine hd.close rfl (fun i => ?_) (.stmt trivial <| List.forall_mem_singleton.mpr hb.ordered)
  simp only [Item.parts, Item.ofStmt, List.mem_cons, List.mem_append]
  grind

theorem classDef (h : b.Reads f) (hs : ∀ c, ReadsBlock f c nested) (hd : Begins f e start (ds.map .expr) c) :
    Ends f c (fun s d => e.Gets f (.stmt s) d) (Parser.classDef b nested start ds) := by
  refine .bind .expect fun t c₁ ⟨ht, hk⟩ => .bind .ident_item fun name c₂ hn => ?_
  have hp c : Ends f c (fun s d => c.Spans f (Arguments.items s) d) (do
      let args ← Parser.arguments b
      let _ ← Parser.expect (.mark .closeParen)
      return args) :=
    .bind (.arguments h) fun _ _ ha => .bind .expect fun _ _ ⟨ht, _⟩ => .pure <| ha.move ht.moves
  refine .bind (.after_spans hp) fun args c₃ ha => ?_
  have ha : c₂.Spans f (args.getD ⟨[], []⟩).items c₃ := by
    cases args <;> simpa [Arguments.items] using ha
  refine .bind (.body h hs) fun block _ hb => .previous <| .pure ?_
  have hd := ((hd t c₁ ht (by simp [hk])).append hn.spans).append <| ha.append hb.spans
  refine hd.close rfl (fun i => ?_) (.stmt trivial <| List.forall_mem_singleton.mpr hb.ordered)
  simp only [Item.parts, Item.ofStmt, Arguments.items, List.mem_cons, List.mem_append]
  grind

theorem decorator (h : b.Reads f) : ReadsExpr f c (Parser.decorator b) :=
  .bind (.namedTest h) fun _ _ he => .bind .expect fun _ _ ⟨ht, _⟩ => .bind .skipNewlines fun _ _ hm =>
    .pure <| (he.move ht.moves).move hm

theorem decorators (h : b.Reads f) (hc : c.kind? = some (.mark .at)) :
    Ends f c (fun ds d => c.Reads f c.here (ds.map .expr) d) (Parser.many <| Parser.after Mark.at <| Parser.decorator b) := by
  let P (c : Cursor) (x : Expr) (d : Cursor) : Prop := c.Reads f c.here [.expr x] d
  refine .mono (.many_some (P := P) (N := fun c => c.kind? = some (.mark .at)) hc fun c => ?_) ?_
  case refine_1 =>
    have hd : ∀ t d, c.Takes f t d → t.kind = Kind.mark .at → Ends f d (P c) (Parser.decorator b) :=
      fun _ _ ht hk => (Ends.decorator h).mono fun _ _ hx => ((ht.reads hk nofun).append hx.spans).opened
    by_cases hk : c.kind? = some (.mark .at)
    case pos => exact .acceptAt hk fun t d ht hk => .bind (hd t d ht hk) fun _ _ hx => .pure ⟨hx, nofun⟩
    case neg => exact (Ends.after hd).mono fun _ _ ho => ⟨ho, fun hc => (hk hc).elim⟩
  case refine_2 =>
    rintro ds d ⟨hr, hn⟩
    cases hr
    case nil => exact (hn rfl).elim
    case cons h hs => exact h.append (hs.mono Cursor.Reads.spans).spans_map

theorem decorated (h : b.Reads f) (hs : ∀ c, ReadsBlock f c nested) (hc : c.kind? = some (.mark .at)) :
    Ends f c (fun s d => c.Gets f (.stmt s) d) (Parser.decorated b nested c.here) := by
  refine .bind (.decorators h hc) fun decorators c₁ hd => .get ?_
  split
  case h_1 => exact .functionDef h hs <| .of_reads hd
  case h_2 => exact .classDef h hs <| .of_reads hd
  case h_3 =>
    refine .ite (fun _ => .bind .next fun _ _ ht => ?_) fun _ => .fail
    exact .functionDef h hs <| .of_reads <| hd.move ht.moves
  case h_4 => exact .fail

end Ends

-- A condition with its block, behind the word that begins them.
structure ReadsBranch (f : ℕ →o ℕ) (c : Cursor) (r : Span × Expr × List Stmt) (d : Cursor) : Prop where
  reads   : c.Reads f r.fst (.expr r.snd.fst :: r.snd.snd.map .stmt) d
  ordered : InOrder f r.snd.snd

namespace ReadsBranch

variable {r : Span × Expr × List Stmt} {rs : List (Span × Expr × List Stmt)} {other : List Stmt}

theorem gets (h : ReadsBranch f c r d) (ho : d.Blocks f other e) :
    c.Gets f (.stmt (.if (r.fst.join e.previous) r.snd.fst r.snd.snd other)) e :=
  (h.reads.append ho.spans).close rfl (by simp) <| .stmt trivial <| InOrder.pair h.ordered ho.ordered

theorem nested (h : Repeats f (ReadsBranch f) c rs d) (ho : d.Blocks f other e) :
    c.Blocks f (rs.foldr (fun (word, test, block) other => [.if (word.join e.previous) test block other]) other) e := by
  induction h
  case nil hm       => exact .behind hm ho
  case cons h _ hi  => exact .single <| h.gets (hi ho)

end ReadsBranch

namespace Ends

variable {b : Below} {nested : Parser (List Stmt)} {ds : List Expr}

theorem branch (h : b.Reads f) (hs : ∀ c, ReadsBlock f c nested) (hc : c.kind? = some (.keyword .kwElif)) :
    Ends f c (ReadsBranch f c) (Parser.branch b nested) := by
  refine .bind .next fun t c₁ ht => .bind (.namedTest h) fun test c₂ hx => .bind (.body h hs) fun block _ hb => .pure ?_
  exact ⟨(ht.reads (ht.kind hc) nofun).append <| hx.spans.append hb.spans, hb.ordered⟩

theorem ifStmt (h : b.Reads f) (hs : ∀ c, ReadsBlock f c nested) :
    Ends f c (fun s d => c.Gets f (.stmt s) d) (Parser.ifStmt b nested c.here) := by
  refine .bind .expect fun t c₁ ⟨ht, hk⟩ => .bind (.namedTest h) fun test c₂ hx => .bind (.body h hs) fun block c₃ hb => ?_
  refine .bind (.many (P := ReadsBranch f) fun c => .ifAt (fun hc => ?_) <| .none <| .refl c) fun branches c₄ hr => ?_
  case refine_1 => exact .bind (.branch h hs hc) fun _ _ hr => .some hr
  refine .bind (.optionalBody h hs) fun other d ho => .previous <| .pure ?_
  have hf : ReadsBranch f c (c.here, test, block) c₃ :=
    ⟨((ht.reads hk nofun).append <| hx.spans.append hb.spans).opened, hb.ordered⟩
  exact hf.gets <| ReadsBranch.nested hr ho

theorem whileStmt (h : b.Reads f) (hs : ∀ c, ReadsBlock f c nested) :
    Ends f c (fun s d => c.Gets f (.stmt s) d) (Parser.whileStmt b nested c.here) := by
  refine .bind .expect fun t c₁ ⟨ht, hk⟩ => .bind (.namedTest h) fun test c₂ hx => .bind (.body h hs) fun block c₃ hb => ?_
  refine .bind (.optionalBody h hs) fun other _ ho => .previous <| .pure ?_
  have hr := (ht.reads hk nofun).opened.append <| hx.spans.append <| hb.spans.append ho.spans
  exact hr.close rfl (by simp) <| .stmt trivial <| InOrder.pair hb.ordered ho.ordered

theorem forStmt {isAsync : Bool} (h : b.Reads f) (hs : ∀ c, ReadsBlock f c nested) (hd : Begins f e start [] c) :
    Ends f c (fun s d => e.Gets f (.stmt s) d) (Parser.forStmt b nested start isAsync) := by
  refine .bind .expect fun t c₁ ⟨ht, hk⟩ => .bind (.targetList h) fun target c₂ hx => .checkTarget fun hp => ?_
  refine .bind .expect fun _ c₃ ⟨h₃, _⟩ => .bind (.exprList h) fun iter c₄ hi => .bind (.body h hs) fun block c₅ hb => ?_
  refine .bind (.optionalBody h hs) fun other _ ho => .previous <| .pure ?_
  have hs := hx.spans.append <| .behind h₃.moves <| hi.spans.append <| hb.spans.append ho.spans
  refine ((hd t c₁ ht (hk ▸ nofun)).append hs).close rfl (by simp) <| .stmt hp <| InOrder.pair hb.ordered ho.ordered

theorem handler {wanted : Option Bool} (h : b.Reads f) (hs : ∀ c, ReadsBlock f c nested) (hc : c.kind? = some (.keyword .kwExcept)) :
    Ends f c (fun x d => c.Gets f (.handler x.snd) d) (Parser.handler b nested wanted) := by
  refine .bind .next fun t c₁ ht => .bind .accepts fun star c₂ hm => .ite (fun _ => .failAt) fun _ => .isAt ?_
  have hb {type : Option Expr} {name : Option Ident} {d}
      (hi : c₂.Spans f (type.toList.map .expr ++ name.toList.map .ident) d) :
      Ends f d (fun x e => c.Gets f (.handler x.snd) e) (do
        let block ← Parser.body b nested
        return (star, ⟨t.span.join (← Parser.previous), type, name, block⟩)) := by
    refine .bind (.body h hs) fun block _ hb => .previous <| .pure ?_
    have hr := ((ht.reads (ht.kind hc) nofun).move hm).append <| hi.append hb.spans
    exact hr.close rfl (by simp) ⟨trivial, List.forall_mem_singleton.mpr hb.ordered⟩
  refine .ite (fun hw => .ite (fun _ => ?bare) fun hn => (hn hw).elim) fun hw => ?_
  case bare => exact hb <| .nil <| .refl c₂
  refine .bind (P := fun o d => c₂.Spans f (o.toList.map .expr) d) (.map (h.test c₂) fun _ _ hx => hx.spans) fun type d hx => ?_
  refine .ite (fun hn => (hw hn).elim) fun _ => .bind (.after_item fun _ => .ident_item) fun name _ hn => ?_
  exact hb <| hx.append hn

theorem handlers (h : b.Reads f) (hs : ∀ c, ReadsBlock f c nested) :
    Ends f c (fun x d => c.Spans f (x.snd.map .handler) d) (Parser.handlers b nested) := by
  refine .ifAt (fun hc => .bind (.handler h hs hc) fun first c₁ hf => ?_) (.pure <| .nil <| .refl c)
  refine .bind (.many (P := fun c x d => c.Spans f [.handler x] d) fun c => .ifAt (fun hc => ?_) <| .none <| .refl c) ?_
  case refine_1 => exact .bind (.handler h hs hc) fun _ _ hx => .some hx.spans
  exact fun more _ hm => .pure <| hf.spans.append hm.spans_map

theorem tryStmt (h : b.Reads f) (hs : ∀ c, ReadsBlock f c nested) :
    Ends f c (fun s d => c.Gets f (.stmt s) d) (Parser.tryStmt b nested c.here) := by
  refine .bind .expect fun t c₁ ⟨ht, hk⟩ => .bind (.body h hs) fun block c₂ hb => .bind (.handlers h hs) fun hands c₃ hh => ?_
  refine .bind (.optionalBody h hs) fun other c₄ ho => .bind (.optionalBody h hs) fun final _ hf => .ite ?_ fun hn => ?_
  case refine_1 => exact fun _ => .previous .failAt
  refine .previous <| .pure ?_
  have hr := (ht.reads hk nofun).opened.append <| hb.spans.append <| hh.append <| ho.spans.append hf.spans
  refine hr.close rfl (by simp) <| .stmt ?_ <| List.forall_mem_cons.mpr ⟨hb.ordered, .pair ho.ordered hf.ordered⟩
  simpa [Stmt.WellFormed, imp_iff_not_or] using hn

theorem withItem (h : b.Reads f) :
    Ends f c (fun i d => c.Spans f (i.exprs.map .expr) d ∧ ∀ x ∈ i.binding, x.IsTarget) (Parser.withItem b) := by
  refine .bind (h.test c) fun context c₁ hc => .bind (.after (P := fun x d => c₁.Spans f [.expr x] d ∧ x.IsTarget) ?_) ?_
  case refine_1 =>
    exact fun _ c₂ ht _ => .bind (h.bitOr c₂) fun _ _ hx => .checkTarget fun hp => .pure ⟨.behind ht.moves hx.spans, hp⟩
  rintro (_ | target) d ho
  case none => exact .pure ⟨hc.spans.move ho, nofun⟩
  case some => exact .pure ⟨hc.spans.append ho.left, by simpa using ho.right⟩

theorem withStmt {isAsync : Bool} (h : b.Reads f) (hs : ∀ c, ReadsBlock f c nested) (hd : Begins f e start [] c) :
    Ends f c (fun s d => e.Gets f (.stmt s) d) (Parser.withStmt b nested start isAsync) := by
  let P (c : Cursor) (i : WithItem) (d : Cursor) : Prop := c.Spans f (i.exprs.map .expr) d ∧ ∀ x ∈ i.binding, x.IsTarget
  refine .bind .expect fun t c₁ ⟨ht, hk⟩ => .bind (.withItem h) fun first c₂ hf => ?_
  refine .bind (.commaTail (P := P) (fun _ => .pure rfl) fun _ _ hm => ?_) fun more c₃ hi => .bind (.body h hs) fun block _ hb => ?_
  case refine_1 => exact .mono (.withItem h) fun _ _ => .imp_left <| .behind hm
  refine .previous <| .pure ?_
  have hr := (hd t c₁ ht (hk ▸ nofun)).append <| hf.left.append <| (hi.mono And.left).spans.append hb.spans
  exact hr.close rfl (by simp) <| .stmt (List.forall_mem_cons.mpr ⟨hf.right, hi.forall_mem And.right⟩) <| List.forall_mem_singleton.mpr hb.ordered

theorem asyncStmt (h : b.Reads f) (hs : ∀ c, ReadsBlock f c nested) :
    Ends f c (fun s d => c.Gets f (.stmt s) d) (Parser.asyncStmt b nested c.here) := by
  refine .bind .expect fun t c₁ ⟨ht, hk⟩ => .peek ?_
  have hr := (ht.reads hk nofun).opened
  split
  case h_1 => exact .functionDef h hs <| .of_reads hr
  case h_2 => exact .forStmt h hs <| .of_reads hr
  case h_3 => exact .withStmt h hs <| .of_reads hr
  case h_4 => exact .fail

-- A look ahead comes back to where it started.
theorem lookAhead {test : Parser Bool} : Ends f c (fun _ d => d = c) (Parser.lookAhead test) := by
  intro hc a d h
  unfold Parser.lookAhead at h
  split at h
  all_goals
    cases h
    exact ⟨hc, rfl⟩

theorem ifStartsMatch {α : Type} {P : α → Cursor → Prop} {p q : Parser α} (ht : c.kind? = some (.name "match") → Ends f c P p)
    (hf : Ends f c P q) : Ends f c P (Parser.startsMatch b >>= fun b => if b then p else q) := by
  have hm : Ends f c (fun b d => d = c ∧ (b = true → c.kind? = Option.some (.name "match"))) (Parser.startsMatch b) :=
    .peek <| .ite (fun hk => .mono .lookAhead fun _ _ h => ⟨h, fun _ => hk⟩) fun _ => .pure ⟨rfl, nofun⟩
  refine .bind hm ?_
  rintro b _ ⟨rfl, hb⟩
  exact .ite (fun h => ht (hb h)) fun _ => hf

theorem matchCase (h : b.Reads f) (hs : ∀ c, ReadsBlock f c nested) :
    Ends f c (fun x d => c.Gets f (.case x) d) (Parser.matchCase b nested) := by
  refine .bind .next fun t c₁ ht => .ite (fun hk => .get ?_) fun _ => .failAt
  refine .bind (.openPattern fun _ => .closedPattern h _) fun p c₂ hp => .bind (.after_item fun _ => .namedTest h) fun guard c₃ hg => ?_
  refine .bind (.body h hs) fun block _ hb => .previous <| .pure ?_
  have hs := (ht.reads hk nofun).append <| hp.spans.append <| hg.append hb.spans
  exact hs.close rfl (by simp) ⟨trivial, List.forall_mem_singleton.mpr hb.ordered⟩

theorem matchStmt (h : b.Reads f) (hs : ∀ c, ReadsBlock f c nested) (hc : c.kind? = some (.name "match")) :
    Ends f c (fun s d => c.Gets f (.stmt s) d) (Parser.matchStmt b nested c.here) := by
  refine .bind .next fun t c₁ ht => .bind (.exprList h) fun subject c₂ hx => .bind .expect fun _ c₃ ⟨h₃, _⟩ => ?_
  refine .bind .expect fun _ c₄ ⟨h₄, _⟩ => .bind .skipNewlines fun _ c₅ h₅ => .ifAccept (fun _ c₆ h₆ _ => ?_) .fail
  refine .bind (.blockItems (P := fun c x d => c.Spans f [.case x] d) (fun _ => .spans <| .matchCase h hs) .behind) fun cases _ hs => ?_
  refine .ite (fun _ => .failAt) fun hn => .previous <| .pure ?_
  have hm := ((h₃.moves.trans h₄.moves).trans h₅).trans h₆.moves
  have hr := (ht.reads (ht.kind hc) nofun).opened.append <| hx.spans.append <| .behind hm hs.spans_map
  exact hr.close rfl (by simp) <| .stmt (by simpa [Stmt.WellFormed] using hn) nofun

theorem stmtForm (h : b.Reads f) (hs : ∀ c, ReadsBlock f c nested) : ReadsBlock f c (Parser.stmtForm b nested) := by
  have one {p : Parser Stmt} (hp : Ends f c (fun s d => c.Gets f (.stmt s) d) p) : ReadsBlock f c (return [← p]) :=
    .bind hp fun _ _ ht => .pure <| .single ht
  refine .here <| .peek ?_
  split
  case h_1 hk => exact one (.decorated h hs hk)
  case h_2 => exact one (.functionDef h hs .here)
  case h_3 => exact one (.classDef h hs .here)
  case h_4 => exact one (.ifStmt h hs)
  case h_5 => exact one (.whileStmt h hs)
  case h_6 => exact one (.forStmt h hs .here)
  case h_7 => exact one (.tryStmt h hs)
  case h_8 => exact one (.withStmt h hs .here)
  case h_9 => exact one (.asyncStmt h hs)
  case h_10 => exact .ifStartsMatch (fun hk => one <| .matchStmt h hs hk) (.simpleStmts h)

theorem stmt (h : b.Reads f) (depth : Nat) : ReadsBlock f c (Parser.stmt b depth) := by
  induction depth generalizing c
  case zero     => exact .fail
  case succ hi  => exact .stmtForm h fun _ => hi

theorem moduleForm (hs : ∀ c, ReadsBlock f c nested) :
    Ends f c (fun m d => c.Blocks f m.body d) (Parser.moduleForm nested) := by
  refine .bind (.many (P := Cursor.Blocks f) fun c => .bind .skipNewlines fun _ d hm => .peek ?_) fun blocks _ hb => .pure ?_
  case refine_1 =>
    split
    case h_1 | h_2 => exact .none hm
    case h_3 => exact .fail
    case h_4 => exact .bind (hs d) fun _ _ ht => .some <| .behind hm ht
  exact List.flatMap_id (L := blocks) ▸ hb.flatMap

end Ends
end PyVerify.Parser
