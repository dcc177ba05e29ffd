import PyVerify.Proofs.Parser.Order
import PyVerify.Proofs.Tree.WellFormed

namespace PyVerify

open Token (Kind Mark)

variable {f : ℕ →o ℕ}

-- The statements are in the order of the source, and apart from each other.
def InOrder (f : ℕ →o ℕ) (block : List Stmt) : Prop :=
  block.Pairwise fun s t => f s.span.stop ≤ f t.span.start

theorem InOrder.pair {block other : List Stmt} (hb : InOrder f block) (ho : InOrder f other) :
    ∀ b ∈ [block, other], InOrder f b :=
  List.forall_mem_cons.mpr ⟨hb, List.forall_mem_singleton.mpr ho⟩

-- An item is well-formed, it contains its parts, and so do they.
inductive Item.Sound (f : ℕ →o ℕ) : Item → Prop
  | intro (formed : WellFormed i) (ordered : ∀ b ∈ i.blocks, InOrder f b) (sound : ∀ j ∈ i.parts, Sound f j)
      (within : ∀ j ∈ i.parts, f i.span.start ≤ f j.span.start ∧ f j.span.stop ≤ f i.span.stop) : Sound f i

-- What an item has apart from its parts and their places.
structure Item.Proper (f : ℕ →o ℕ) (i : Item) : Prop where
  formed  : i.WellFormed
  ordered : ∀ b ∈ i.blocks, InOrder f b

namespace Item.Proper

theorem expr {e : Expr} (h : e.WellFormed) : (Item.expr e).Proper f :=
  ⟨h, nofun⟩

theorem pattern {p : Pattern} (h : p.WellFormed) : (Item.pattern p).Proper f :=
  ⟨h, nofun⟩

theorem param {p : Param Expr} : (Item.param p).Proper f :=
  ⟨trivial, nofun⟩

theorem keyword {k : KeywordArg Expr} : (Item.keyword k).Proper f :=
  ⟨trivial, nofun⟩

theorem imported {a : Alias} : (Item.imported a).Proper f :=
  ⟨trivial, nofun⟩

theorem ident {i : Ident} : (Item.ident i).Proper f :=
  ⟨trivial, nofun⟩

theorem stmt {s : Stmt} (h : s.WellFormed) (ho : ∀ b ∈ (Item.stmt s).blocks, InOrder f b) : (Item.stmt s).Proper f :=
  ⟨h, ho⟩

end Item.Proper

namespace Cursor

variable {a b : Span} {c d e : Cursor} {i j : Item} {is js : List Item} {t : Token} {kind : Kind}

-- Items were read between two cursors.
structure Spans (f : ℕ →o ℕ) (c : Cursor) (is : List Item) (d : Cursor) : Prop where
  moves   : c.Moves f d
  sound   : ∀ i ∈ is, i.Sound f
  between : ∀ i ∈ is, f c.stop ≤ f i.span.start ∧ f i.span.stop ≤ f d.stop

-- A token or more were read, a stretch of the text among them, and with it and behind it items.
structure Reads (f : ℕ →o ℕ) (c : Cursor) (a : Span) (is : List Item) (d : Cursor) : Prop where
  moves   : c.Moves f d
  -- The first token is no dedent, and it comes before the stretch.
  here    : f c.stop ≤ f c.here.start
  first   : f c.here.stop ≤ f d.stop
  start   : f c.here.start ≤ f a.start
  turn    : f a.start ≤ f d.previous.start
  stop    : f a.stop ≤ f d.stop
  sound   : ∀ i ∈ is, i.Sound f
  between : ∀ i ∈ is, f a.start ≤ f i.span.start ∧ f i.span.stop ≤ f d.stop

-- The item was read.
abbrev Gets (f : ℕ →o ℕ) (c : Cursor) (i : Item) (d : Cursor) : Prop :=
  c.Reads f i.span [i] d

namespace Spans

theorem nil (h : c.Moves f d) : c.Spans f [] d :=
  ⟨h, nofun, nofun⟩

theorem append (h₁ : c.Spans f is d) (h₂ : d.Spans f js e) : c.Spans f (is ++ js) e := by
  refine ⟨h₁.moves.trans h₂.moves, List.forall_mem_append.mpr ⟨h₁.sound, h₂.sound⟩, List.forall_mem_append.mpr ⟨?_, ?_⟩⟩
  case refine_1 => exact fun i hi => (h₁.between i hi).imp_right (·.trans h₂.moves.stop)
  case refine_2 => exact fun i hi => (h₂.between i hi).imp_left h₁.moves.stop.trans

theorem subset (h : c.Spans f is d) (hs : js ⊆ is) : c.Spans f js d :=
  ⟨h.moves, fun i hi => h.sound i (hs hi), fun i hi => h.between i (hs hi)⟩

theorem move (h : c.Spans f is d) (hm : d.Moves f e) : c.Spans f is e :=
  by simpa using h.append (.nil hm)

theorem behind (hm : c.Moves f d) (h : d.Spans f is e) : c.Spans f is e :=
  (nil hm).append h

theorem parts (h : c.Spans f [i] d) : c.Spans f i.parts d := by
  obtain ⟨hs, he⟩ := h.between i (.head _)
  cases h.sound i (.head _)
  case intro hj hw => exact ⟨h.moves, hj, fun j hm => ⟨hs.trans (hw j hm).left, (hw j hm).right.trans he⟩⟩

end Spans

namespace Takes

theorem start (h : c.Takes f t d) (hk : t.kind ≠ .dedent) : c.Reads f t.span [] d := by
  refine ⟨h.moves, ?_, ?_, ?_, ?_, ?_, nofun, nofun⟩
  case refine_1 => exact h.here ▸ h.apart hk
  case refine_2 => simp [h.here, Cursor.stop, h.span]
  case refine_3 => simp [h.here]
  case refine_4 => simp [h.span]
  case refine_5 => simp [Cursor.stop, h.span]

theorem reads (h : c.Takes f t d) (hk : t.kind = kind) (hn : kind ≠ .dedent) : c.Reads f t.span [] d :=
  h.start (hk ▸ hn)

end Takes

namespace Reads

theorem spans (h : c.Reads f a is d) : c.Spans f is d :=
  ⟨h.moves, h.sound, fun i hi => (h.between i hi).imp_left (h.here.trans h.start).trans⟩

theorem append (h : c.Reads f a is d) (hs : d.Spans f js e) : c.Reads f a (is ++ js) e where
  moves := h.moves.trans hs.moves
  here  := h.here
  first := h.first.trans hs.moves.stop
  start := h.start
  turn  := h.turn.trans hs.moves.start
  stop  := h.stop.trans hs.moves.stop
  sound := List.forall_mem_append.mpr ⟨h.sound, hs.sound⟩
  between := by
    refine List.forall_mem_append.mpr ⟨fun i hi => ?_, fun i hi => ?_⟩
    case refine_1 => exact (h.between i hi).imp_right (·.trans hs.moves.stop)
    case refine_2 => exact (hs.between i hi).imp_left (a.start_le_stop.trans <| h.stop.trans ·)

theorem move (h : c.Reads f a is d) (hm : d.Moves f e) : c.Reads f a is e := by
  simpa using h.append (.nil hm)

-- The stretch may be taken from the first token on.
theorem opened (h : c.Reads f a is d) : c.Reads f c.here is d where
  __ := h
  start   := le_rfl
  turn    := h.start.trans h.turn
  stop    := h.first
  between := fun i hi => (h.between i hi).imp_left h.start.trans

theorem before (h : c.Reads f b is d) (hs : d.Reads f a js e) : f b.start ≤ f a.start ∧ f b.stop ≤ f a.start := by
  have hb := h.stop.trans <| hs.here.trans hs.start
  exact ⟨b.start_le_stop.trans hb, hb⟩

-- What is read behind an opening bracket.
theorem behind (h : c.Reads f b is d) (hs : d.Reads f a js e) : c.Reads f a js e where
  __ := hs
  moves := h.moves.trans hs.moves
  here  := h.here
  first := h.first.trans hs.moves.stop
  start := h.start.trans (h.before hs).left

theorem join (h : c.Reads f a [] d) (hs : d.Reads f b [] e) : c.Reads f (a.join b) [] e where
  __ := h.move hs.moves
  start   := Span.map_start_join ▸ le_min h.start (h.start.trans (h.before hs).left)
  turn    := Span.map_start_join ▸ min_le_of_right_le hs.turn
  stop    := Span.map_stop_join ▸ max_le (h.stop.trans hs.moves.stop) hs.stop
  between := nofun

-- An item whose parts were read.
theorem node (h : c.Reads f a is d) (hp : i.Proper f) (hi : i.parts ⊆ is) (ha : f i.span.start = f a.start)
    (hd : f i.span.stop ≤ f d.stop) (hs : ∀ j ∈ i.parts, f j.span.stop ≤ f i.span.stop) :
    c.Gets f i d where
  __ := h
  start   := ha ▸ h.start
  turn    := ha ▸ h.turn
  stop    := hd
  sound   := List.forall_mem_singleton.mpr <| .intro hp.formed hp.ordered (fun j hj => h.sound j (hi hj)) fun j hj =>
    ⟨ha ▸ (h.between j (hi hj)).left, hs j hj⟩
  between := List.forall_mem_singleton.mpr ⟨le_rfl, hd⟩

theorem leaf (h : c.Reads f i.span is d) (hi : i.parts = []) (hp : i.Proper f) : c.Gets f i d :=
  h.node hp (by simp [hi]) rfl h.stop (by simp [hi])

-- An item in the place of its part.
theorem replace (h : c.Gets f j d) (hp : i.Proper f) (hz : i.span = j.span) (hi : i.parts ⊆ [j]) : c.Gets f i d :=
  h.node hp hi (hz ▸ rfl) (hz ▸ h.stop) fun k hk => by
    rw [List.mem_singleton.mp (hi hk), hz]

-- An item that reaches to the last token.
theorem close (h : c.Reads f a is d) (hz : i.span = a.join d.previous) (hi : i.parts ⊆ is) (hp : i.Proper f) :
    c.Gets f i d := by
  have hd : f i.span.stop = f d.stop := by
    rw [hz, Span.map_stop_join]
    exact max_eq_right h.stop
  refine h.node hp hi ?_ hd.le fun j hj => hd ▸ (h.between j (hi hj)).right
  rw [hz, Span.map_start_join]
  exact min_eq_left h.turn

-- An item that reaches to a closing bracket.
theorem enclose (h : c.Reads f a is d) (ht : d.Takes f t e) (hz : i.span = a.join t.span) (hi : i.parts ⊆ is)
    (hp : i.Proper f) : c.Gets f i e :=
  (h.move ht.moves).close (ht.span ▸ hz) hi hp

-- An item that reaches to the end of its last part.
theorem upto (h : c.Reads f a is d) (hj : d.Gets f j e) (hz : i.span = a.join j.span) (hi : i.parts ⊆ is ++ [j])
    (hp : i.Proper f) : c.Gets f i e := by
  obtain ⟨ha, hb⟩ := h.before hj
  have hs : f i.span.stop = f j.span.stop := by
    rw [hz, Span.map_stop_join]
    exact max_eq_right <| hb.trans j.span.start_le_stop
  refine (h.append hj.spans).node hp hi ?_ (hs ▸ hj.stop) fun k hk => ?_
  case refine_1 =>
    rw [hz, Span.map_start_join]
    exact min_eq_left ha
  case refine_2 =>
    rw [hs]
    obtain hk | hk := List.mem_append.mp (hi hk)
    · exact (h.between k hk).right.trans <| hj.here.trans <| hj.start.trans j.span.start_le_stop
    · rw [List.mem_singleton.mp hk]

end Reads

attribute [simp] Item.parts Item.ofExpr Item.ofPattern Item.ofStmt Param.exprs

-- A block of statements was read.
structure Blocks (f : ℕ →o ℕ) (c : Cursor) (block : List Stmt) (d : Cursor) : Prop where
  spans   : c.Spans f (block.map .stmt) d
  ordered : InOrder f block

namespace Blocks

variable {block rest : List Stmt} {s : Stmt}

theorem nil (h : c.Moves f d) : c.Blocks f [] d :=
  ⟨.nil h, .nil⟩

theorem single (h : c.Gets f (.stmt s) d) : c.Blocks f [s] d :=
  ⟨h.spans, List.pairwise_singleton ..⟩

theorem append (h₁ : c.Blocks f block d) (h₂ : d.Blocks f rest e) : c.Blocks f (block ++ rest) e := by
  refine ⟨by simpa using h₁.spans.append h₂.spans, List.pairwise_append.mpr ⟨h₁.ordered, h₂.ordered, ?_⟩⟩
  intro s hs t ht
  have hd := (h₁.spans.between _ <| List.mem_map_of_mem hs).right
  exact hd.trans (h₂.spans.between _ <| List.mem_map_of_mem ht).left

theorem move (h : c.Blocks f block d) (hm : d.Moves f e) : c.Blocks f block e :=
  by simpa using h.append (.nil hm)

theorem behind (hm : c.Moves f d) (h : d.Blocks f block e) : c.Blocks f block e :=
  (nil hm).append h

end Blocks
end Cursor

namespace Parser.Repeats

variable {α : Type} {c d : Cursor} {as : List α}

theorem spans {items : α → List Item} (h : Repeats f (fun c a d => c.Spans f (items a) d) c as d) :
    c.Spans f (as.flatMap items) d := by
  induction h
  case nil h        => exact .nil h
  case cons h _ hi  => simpa using h.append hi

theorem spans_map {item : α → Item} (h : Repeats f (fun c a d => c.Spans f [item a] d) c as d) :
    c.Spans f (as.map item) d := by
  rw [List.map_eq_flatMap]
  exact h.spans

theorem flatMap {block : α → List Stmt} (h : Repeats f (fun c a d => c.Blocks f (block a) d) c as d) :
    c.Blocks f (as.flatMap block) d := by
  induction h
  case nil h        => exact .nil h
  case cons h _ hi  => simpa using h.append hi

end Parser.Repeats

namespace Parser.Ends

variable {α : Type} {item : α → Item} {c : Cursor} {p : Parser α}

theorem ident_item : Ends f c (fun i d => c.Gets f (.ident i) d) Parser.ident :=
  Ends.ident.mono fun _ _ h => (h.start nofun).leaf rfl .ident

theorem spans (h : Ends f c (fun a d => c.Gets f (item a) d) p) : Ends f c (fun a d => c.Spans f [item a] d) p :=
  h.mono fun _ _ ha => ha.spans

theorem after_spans {items : α → List Item} {kind : Kind}
    (h : ∀ c, Ends f c (fun a d => c.Spans f (items a) d) p) :
    Ends f c (fun o d => c.Spans f (o.toList.flatMap items) d) (Parser.after kind p) := by
  refine .mono (.after (P := fun a d => c.Spans f (items a) d) fun t d ht _ => ?_) fun o d ho => ?_
  case refine_1 => exact (h d).mono fun _ _ => .behind ht.moves
  case refine_2 =>
    cases o
    case none => exact .nil ho
    case some =>
      rw [Option.toList_some, List.flatMap_singleton]
      exact ho

theorem after_item {kind : Kind} (h : ∀ c, Ends f c (fun a d => c.Gets f (item a) d) p) :
    Ends f c (fun o d => c.Spans f (o.toList.map item) d) (Parser.after kind p) := by
  simp only [List.map_eq_flatMap]
  exact after_spans fun c => (h c).spans

theorem foldItems_spans {σ : Type} {items : σ → List Item} {close : Kind} {step : σ → Parser σ} {s : σ}
    (h : ∀ s d, c.Spans f (items s) d → Ends f d (fun s e => c.Spans f (items s) e) (step s)) (hs : items s = []) :
    Ends f c (fun s d => c.Spans f (items s) d) (Parser.foldItems close step s) :=
  .foldItems (fun _ _ _ hs hm => hs.move hm) (fun s d => h s d) (hs ▸ .nil (.refl c))

-- A list of items up to a closing token.
theorem collect {close : Kind} (h : ∀ c, Ends f c (fun a d => c.Spans f [item a] d) p) :
    Ends f c (fun as d => c.Spans f (as.map item) d) (Parser.foldItems close (fun as => return as ++ [← p]) []) := by
  refine .foldItems_spans (fun as d hs => .bind (h d) fun _ _ ha => .pure ?_) rfl
  simpa using hs.append ha

theorem many_after {kind : Kind} (h : ∀ c, Ends f c (fun a d => c.Gets f (item a) d) p) :
    Ends f c (fun as d => c.Spans f (as.map item) d) (Parser.many <| Parser.after kind p) := by
  refine .mono (.many (P := fun c a d => c.Spans f [item a] d) fun c => .after fun t d ht _ => ?_) fun _ _ h => h.spans_map
  exact (h d).mono fun _ _ ha => .behind ht.moves ha.spans

theorem commaTail_items {stop : Parser Bool} (hs : ∀ c, Ends f c (fun _ d => d = c) stop)
    (h : ∀ c, Ends f c (fun a d => c.Gets f (item a) d) p) :
    Ends f c (fun as d => c.Spans f (as.map item) d) (Parser.commaTail stop p) := by
  refine .mono (.commaTail (P := fun c a d => c.Spans f [item a] d) hs fun c d hm => ?_) fun _ _ h => h.spans_map
  exact (h d).mono fun _ _ ha => .behind hm ha.spans

end Parser.Ends
end PyVerify
