import PyVerify.Parser.Statement
import PyVerify.Proofs.Code.Assembly
import PyVerify.Proofs.Code.Assignment
import PyVerify.Proofs.Token.Lexical

namespace PyVerify.Code

-- The names that a statement makes visible in the rest of its block.
def Stmt.binds : Stmt → List String
  | .declare _ name _ => [name]
  | _                 => []

def unscopedTarget (vis : List String) : Term → List String
  | .ident name => if name ∈ vis then [] else [name]
  | _           => []

-- The names that a piece of code assigns to where no declaration is visible, in the order of the text. What a
-- block declares is visible up to its end.

mutual

def Stmt.unscoped (vis : List String) : Stmt → List String
  | .assign target _ | .augment target _ _ => unscopedTarget vis target
  | .while _ body         => blockUnscoped vis body
  | .if branches orelse   => branchUnscoped vis branches ++ orelseUnscoped vis orelse
  | .forRange header body => unscopedTarget vis (.ident header.counter) ++ blockUnscoped vis body
  | _                     => []

def blockUnscoped (vis : List String) : List Stmt → List String
  | []      => []
  | s :: ss => s.unscoped vis ++ blockUnscoped (s.binds ++ vis) ss

def branchUnscoped (vis : List String) : List (Condition × List Stmt) → List String
  | []                => []
  | (_, body) :: rest => blockUnscoped vis body ++ branchUnscoped vis rest

def orelseUnscoped (vis : List String) : Option (List Stmt) → List String
  | none      => []
  | some body => blockUnscoped vis body

end

def Function.unscoped (f : Function) : List String :=
  blockUnscoped (f.params.map Prod.snd) f.body

-- What is visible behind a piece of code.
def visible (vis : List String) : List Stmt → List String
  | []      => vis
  | s :: ss => visible (s.binds ++ vis) ss

section

variable {v : Verifier} {σ ρ τ : Scope} {vis : List String} {code : List Stmt} {S : String → Prop}
  {as bs : List Assignment} {e : PyVerify.Expr} {t : Term} {n : Notes}

theorem visible_append {more : List Stmt} : visible vis (code ++ more) = visible (visible vis code) more := by
  induction code generalizing vis <;> simp_all [visible]

theorem blockUnscoped_append {more : List Stmt} :
    blockUnscoped vis (code ++ more) = blockUnscoped vis code ++ blockUnscoped (visible vis code) more := by
  induction code generalizing vis <;> simp_all [blockUnscoped, visible]

-- Each name in a scope is visible, or an exception.
def Covers (S : String → Prop) (σ : Scope) (vis : List String) : Prop :=
  ∀ n ∈ σ, identifier n ∈ vis ∨ S n

-- The names that are not declared yet where their value is changed, or that a loop or a branch declares, are
-- exceptions.
def Excused (S : String → Prop) : Scope → List Assignment → Prop
  | _, []      => True
  | σ, a :: as => (a.name ∉ σ → a.augmented ∨ a.nested → S a.name) ∧ Excused S (after σ [a]) as

theorem excused_append : Excused S σ (as ++ bs) ↔ Excused S σ as ∧ Excused S (after σ as) bs := by
  induction as generalizing σ
  case nil => simp [Excused]
  case cons a as hi => rw [List.cons_append, Excused, Excused, hi, and_assoc, ←after_append, List.singleton_append]

-- A block leaves exceptions behind, apart from what was in the scope before.
theorem Covers.of_nested (h : Covers S σ vis) (he : Excused S σ as) (hn : ∀ a ∈ as, a.nested) :
    Covers S (after σ as) vis := by
  induction as generalizing σ
  case nil => exact h
  case cons a as hi =>
    obtain ⟨ha, he⟩ := he
    obtain ⟨hna, hn⟩ := List.forall_mem_cons.mp hn
    rw [←List.singleton_append, after_append]
    refine hi (fun n hm => ?_) he hn
    by_cases hk : a.augmented ∨ a.name ∈ σ
    case pos => exact h n <| by simpa [after, fresh_cons_of_known hk] using hm
    case neg =>
      obtain ⟨hg, hf⟩ := not_or.mp hk
      have hm : n = a.name ∨ n ∈ σ := by simpa [after, fresh_cons_of_new hg hf] using hm
      obtain rfl | hm := hm
      · exact .inr <| ha hf <| .inr hna
      · exact h n hm

-- The code in a block assigns to visible names, apart from exceptions, and the scope behind it is visible.
structure Keeps (S : String → Prop) (vis : List String) (code : List Stmt) (τ : Scope) : Prop where
  unscoped : ∀ c ∈ blockUnscoped vis code, ∃ n, identifier n = c ∧ S n
  covers   : Covers S τ (visible vis code)

namespace Keeps

theorem nil (h : Covers S σ vis) : Keeps S vis [] σ :=
  ⟨by simp [blockUnscoped], h⟩

theorem append {more : List Stmt} (h : Keeps S vis code ρ) (g : Keeps S (visible vis code) more τ) :
    Keeps S vis (code ++ more) τ where
  unscoped := by
    rw [blockUnscoped_append]
    exact List.forall_mem_append.mpr ⟨h.unscoped, g.unscoped⟩
  covers := visible_append ▸ g.covers

-- A statement that declares nothing for the block it is in.
theorem single {s : Stmt} (hb : s.binds = []) (hu : ∀ c ∈ s.unscoped vis, ∃ n, identifier n = c ∧ S n)
    (h : Covers S σ vis) : Keeps S vis [s] σ where
  unscoped := by simpa [blockUnscoped] using hu
  covers   := by simpa [visible, hb] using h

theorem declare {type : CType} {value : Option Term} {ident : String} (h : Covers S σ vis) :
    Keeps S vis [.declare type (identifier ident) value] (ident :: σ) where
  unscoped := by simp [blockUnscoped, Stmt.unscoped]
  covers   := List.forall_mem_cons.mpr ⟨.inl List.mem_cons_self, fun n hn => (h n hn).imp_left <| List.mem_cons_of_mem _⟩

theorem declares {type : CType} {ident : String} (hd : Declares type ident σ code τ) (h : Covers S σ vis) :
    Keeps S vis code τ := by
  cases hd
  case new    => exact .declare h
  case known  => exact .nil h

end Keeps

theorem mem_unscopedTarget {c : String} : c ∈ unscopedTarget vis t ↔ t = .ident c ∧ c ∉ vis := by
  cases t <;> grind [unscopedTarget]

theorem Covers.target {ident : String} (h : Covers S σ vis) (hi : ident ∈ σ ∨ S ident) :
    ∀ c ∈ unscopedTarget vis (.ident (identifier ident)), ∃ n, identifier n = c ∧ S n := by
  intro c hc
  obtain ⟨he, hv⟩ := mem_unscopedTarget.mp hc
  obtain rfl := Term.ident.inj he
  exact ⟨ident, rfl, hi.elim (fun hm => (h ident hm).resolve_left hv) id⟩

section

variable {c : String}

theorem eq_ident_of_grouped (h : grouped e t = .ident c) : t = .ident c := by
  unfold grouped at h
  split at h
  case h_3 => exact h
  all_goals cases h

theorem signTerm_ne_ident {op : UnaryOp} : signTerm op t ≠ .ident c := by
  cases op <;> nofun

theorem chain_ne_ident {links : List (CompareOp × Term)} : chain t links ≠ .ident c := by
  obtain hl | hl := chain_cases t links
  case inr => exact hl ▸ nofun
  case inl =>
    intro h
    cases links <;> simp [h, linkTerms] at hl

theorem callTerm_ne_ident {name : String} {ts : List Term} : callTerm name ts ≠ .ident c := by
  obtain ⟨_, _, ⟨_, h⟩ | ⟨_, h⟩ | ⟨_, h⟩⟩ | ⟨_, h⟩ := callTerm_cases name ts
  all_goals exact h ▸ nofun

-- Only a name becomes an identifier.
theorem Lowers.eq_name (h : Lowers v e t n) (ht : grouped e t = .ident c) :
    ∃ z ident, e = .name z ident ∧ identifier ident = c := by
  obtain rfl := eq_ident_of_grouped ht
  generalize hc : Term.ident c = t at h
  cases h
  case name     => exact ⟨_, _, rfl, (Term.ident.inj hc).symm⟩
  case unary    => exact (signTerm_ne_ident hc.symm).elim
  case compare  => exact (chain_ne_ident hc.symm).elim
  case call     => exact (callTerm_ne_ident hc.symm).elim
  all_goals cases hc

end

theorem Covers.target_of_lowers (h : Covers S σ vis) (ht : Lowers v e t n)
    (hn : ∀ z ident, e = .name z ident → ident ∈ σ ∨ S ident) :
    ∀ c ∈ unscopedTarget vis (grouped e t), ∃ n, identifier n = c ∧ S n := by
  intro c hc
  obtain ⟨hg, _⟩ := mem_unscopedTarget.mp hc
  obtain ⟨z, ident, rfl, rfl⟩ := ht.eq_name hg
  exact h.target (hn z ident rfl) _ (hg ▸ hc)

theorem Assigns.keeps {type : CType} {value : Term} {p : Option Term} (hp : Places v e p n)
    (ha : Assigns type value e p σ code τ) (h : Covers S σ vis) : Keeps S vis code τ := by
  cases hp
  case name =>
    cases ha
    case new      => exact .declare h
    case known hi => exact .single rfl (h.target <| .inl hi) h
  case term hn ht =>
    cases ha
    exact .single rfl (h.target_of_lowers ht fun z i he => (hn z i he).elim) h

theorem AssignsAll.keeps {type : CType} {value : Term} {es : List PyVerify.Expr} {ps : List (Option Term)}
    (hp : PlacesAll v es ps n) (ha : AssignsAll type value es ps σ code τ) (h : Covers S σ vis) :
    Keeps S vis code τ := by
  induction ha generalizing n vis
  case nil => exact .nil h
  case cons ha _ hi =>
    obtain _ | ⟨hp, hps⟩ := hp
    have hk := ha.keeps hp h
    exact hk.append <| hi hps hk.covers

namespace Keeps

theorem augment {nested : Bool} {sign : InfixOp} {value : Term} (ht : Lowers v e t n)
    (he : Excused S σ (targetAssignments nested true e)) (h : Covers S σ vis) :
    Keeps S vis [.augment (grouped e t) sign value] σ := by
  refine .single rfl (h.target_of_lowers ht ?_) h
  rintro z ident rfl
  exact or_iff_not_imp_left.mpr fun hi => he.left hi <| .inl rfl

theorem loopElse {other : List PyVerify.Stmt} (h : Covers S σ vis) : Keeps S vis (loopElse other) σ := by
  unfold Code.loopElse
  split
  case isTrue   => exact .nil h
  case isFalse  => exact .single rfl nofun h

end Keeps

theorem Declares.mem {type : CType} {ident : String} (h : Declares type ident σ code τ) : ident ∈ τ := by
  cases h
  case new      => exact List.mem_cons_self
  case known hi => exact hi

theorem counter_of_rangeHeader? {counter : String} {args : List PyVerify.Expr} {ts : List Term}
    {header : RangeHeader} (h : rangeHeader? counter args ts = some header) : header.counter = counter := by
  unfold rangeHeader? at h
  split at h
  case h_4 => cases h
  all_goals
    cases h
    rfl

-- Behind a nested block the scope is covered as it was before.

theorem EmitsBlock.covers {ss : List PyVerify.Stmt} (hb : EmitsBlock v ss σ code n τ)
    (he : Excused S σ (Block.assignments v true ss)) (h : Covers S σ vis) : Covers S τ vis :=
  hb.introduces.scope ▸ h.of_nested he fun _ ha => (Block.bound_of_mem_assignments ss ha).nested rfl

theorem EmitsOrelse.covers {ss : List PyVerify.Stmt} {more : List (Condition × List Stmt)}
    {final : Option (List Stmt)} (ho : EmitsOrelse v ss σ more final n τ)
    (he : Excused S σ (Block.assignments v true ss)) (h : Covers S σ vis) : Covers S τ vis :=
  ho.introduces.scope ▸ h.of_nested he fun _ ha => (Block.bound_of_mem_assignments ss ha).nested rfl

end

-- The code of a statement assigns to visible names, apart from exceptions.

mutual

theorem Emits.keeps {nested : Bool} : Emits v s σ code n τ → Excused S σ (s.assignments v nested) →
    Covers S σ vis → Keeps S vis code τ
  | .silent _, _, h | .typedPlace _, _, h => .nil h
  | .placeholder _, _, h | .break, _, h | .continue, _, h | .returnZero, _, h | .return _, _, h
  | .returnUnsupported _, _, h | .expr .., _, h | .assert _, _, h => .single rfl nofun h
  | .assign _ _ hp ha, _, h => ha.keeps hp h
  | .annAssign _ hp ha, _, h => ha.keeps hp h
  | .typed hd, _, h => .declares hd h
  | .augAssign ho ht hu, he, h => .augment ht (assignments_augAssign ho ht hu ▸ he) h
  | .if _ hb ho, he, h => by
    obtain ⟨hx, hy⟩ := excused_append.mp he
    rw [hb.introduces.scope] at hy
    have hc := hb.covers hx h
    have hu := List.forall_mem_append.mpr ⟨(hb.keeps hx h).unscoped, ho.unscoped hy hc⟩
    exact .single rfl (by simpa [Stmt.unscoped, branchUnscoped] using hu) (ho.covers hy hc)
  | .while _ hb, he, h => by
    have hc := hb.covers he h
    exact .append (.single rfl (by simpa [Stmt.unscoped] using (hb.keeps he h).unscoped) hc) (.loopElse hc)
  | .for hr hb, he, h => by
    obtain ⟨hr, ha, hh, hd⟩ := hr
    rw [assignments_for hr ha, excused_append, (Introduces.declares hd).scope] at he
    have hk := Keeps.declares hd h
    have hc := hb.covers he.right hk.covers
    have ht := hk.covers.target (.inl hd.mem)
    have hu := List.forall_mem_append.mpr ⟨ht, (hb.keeps he.right hk.covers).unscoped⟩
    refine hk.append <| .append (.single rfl ?_ hc) (.loopElse hc)
    simpa [Stmt.unscoped, counter_of_rangeHeader? hh] using hu

theorem EmitsBlock.keeps {nested : Bool} : EmitsBlock v ss σ code n τ →
    Excused S σ (Block.assignments v nested ss) → Covers S σ vis → Keeps S vis code τ
  | .nil, _, h => .nil h
  | .cons hs hb, he, h => by
    obtain ⟨hx, hy⟩ := excused_append.mp he
    rw [hs.introduces.scope] at hy
    have hk := hs.keeps hx h
    exact hk.append <| hb.keeps hy hk.covers

theorem EmitsOrelse.unscoped : EmitsOrelse v ss σ more final n τ →
    Excused S σ (Block.assignments v true ss) → Covers S σ vis →
      ∀ c ∈ branchUnscoped vis more ++ orelseUnscoped vis final, ∃ n, identifier n = c ∧ S n
  | .nil, _, _ => nofun
  | .elif _ hb ho, he, h => by
    obtain ⟨hx, hy⟩ := excused_append.mp (by simpa [Block.assignments, Stmt.assignments] using he)
    rw [hb.introduces.scope] at hy
    have hu := ho.unscoped hy (hb.covers hx h)
    rw [branchUnscoped, List.append_assoc]
    exact List.forall_mem_append.mpr ⟨(hb.keeps hx h).unscoped, hu⟩
  | .else _ _ hb, he, h => (hb.keeps he h).unscoped

end

section

variable {v : Verifier} {S : String → Prop} {σ τ : Scope} {vis params : List String} {ss body : List PyVerify.Stmt}
  {code : List Stmt} {name : String}

-- It is enough to look at the first assignment to a name.
theorem excused_of_first {as : List Assignment} (h : ∀ n a, n ∉ σ → as.find? (·.name = n) = some a →
    a.augmented ∨ a.nested → S n) : Excused S σ as := by
  induction as generalizing σ
  case nil => trivial
  case cons a as hi =>
    refine ⟨fun hn => h a.name a hn (by simp), hi fun n b hn hf hb => ?_⟩
    by_cases hk : a.augmented ∨ a.name ∈ σ
    case pos =>
      have hn : n ∉ σ := by simpa [after, fresh_cons_of_known hk] using hn
      by_cases he : a.name = n
      case pos => exact h n a hn (by simp [he]) (.inl <| hk.resolve_right (he ▸ hn))
      case neg => exact h n b hn (by simpa [he] using hf) hb
    case neg =>
      obtain ⟨ha, hs⟩ := not_or.mp hk
      obtain ⟨he, hn⟩ : n ≠ a.name ∧ n ∉ σ := by simpa [after, fresh_cons_of_new ha hs] using hn
      exact h n b hn (by simpa [Ne.symm he] using hf) hb

-- A name that is first assigned in a block is declared at the top.
theorem mem_hoisted_of_nested {seen : List String} {bs : List Binding} {b : Binding} (hs : name ∉ seen)
    (hf : bs.find? (·.name = name) = some b) (hb : b.nested) : name ∈ (hoisted seen bs).map Binding.name := by
  fun_induction hoisted seen bs
  case case1 => cases hf
  case case2 c _ hc hi =>
    have hn : c.name ≠ name := fun h => hs (h ▸ by simpa using hc)
    exact hi hs (by simpa [hn] using hf)
  case case3 c _ _ _ hi =>
    by_cases hn : c.name = name
    case pos => exact hn ▸ List.mem_cons_self
    case neg => exact List.mem_cons_of_mem _ <| hi (by simp [hs, Ne.symm hn]) (by simpa [hn] using hf)
  case case4 c _ _ hc hi =>
    by_cases hn : c.name = name
    case pos =>
      obtain rfl : c = b := by simpa [hn] using hf
      exact absurd hb hc
    case neg => exact hi (by simp [hs, Ne.symm hn]) (by simpa [hn] using hf)

-- The names that are not declared in a block around each of their assignments. The first assignment to such a
-- name that has a counterpart either only changes its value, or is in a loop or a branch although the first
-- one of all is in neither.
inductive Stray (v : Verifier) (params : List String) (body : List PyVerify.Stmt) (name : String) : Prop
  | augmented (he : name ∉ entry v params body)
      (ha : (Block.assignments v false body).find? (·.name = name) = some a) (hg : a.augmented)
  | dropped (hp : name ∉ params)
      (hb : (blockBindings v false body).find? (·.name = name) = some b) (hn : ¬b.nested)
      (ha : (Block.assignments v false body).find? (·.name = name) = some a) (hg : a.nested)

theorem excused_stray : Excused (Stray v params body) (entry v params body) (Block.assignments v false body) := by
  refine excused_of_first fun n a he ha hg => ?_
  by_cases hu : a.augmented
  case pos => exact .augmented he ha hu
  case neg =>
    have hm := (Block.bound_of_mem_assignments body (List.mem_of_find?_eq_some ha)).name.resolve_left hu
    have hn : a.name = n := by simpa using List.find?_some ha
    obtain ⟨c, hc, hm⟩ := List.mem_map.mp hm
    obtain ⟨b, hb⟩ : ∃ b, (blockBindings v false body).find? (·.name = n) = some b :=
      Option.isSome_iff_exists.mp <| List.find?_isSome.mpr ⟨c, hc, decide_eq_true (hm.trans hn)⟩
    obtain ⟨hl, hp⟩ := not_or.mp (List.mem_append.not.mp he)
    exact .dropped hp hb (fun hn => hl <| mem_hoisted_of_nested hp hb hn) ha <| hg.resolve_left hu

namespace Keeps

theorem mono {ρ : Scope} (h : Keeps S vis code τ) (hs : ρ ⊆ τ) : Keeps S vis code ρ :=
  ⟨h.unscoped, fun n hn => h.covers n (hs hn)⟩

theorem declarations {bs : List Binding} (h : Covers S σ vis) :
    Keeps S vis (declarations bs) (bs.map Binding.name ++ σ) := by
  induction bs generalizing σ vis
  case nil => exact .nil h
  case cons b bs hi =>
    have hk : Keeps S vis [.declare b.type (identifier b.name) none] (b.name :: σ) := .declare h
    exact hk.append (hi hk.covers) |>.mono (by simp)

end Keeps

theorem EmitsTop.keeps {s : PyVerify.Stmt} (ht : EmitsTop v s σ code τ)
    (he : Excused S σ (Block.assignments v false (mainBlock s))) (h : Covers S σ vis) : Keeps S vis code τ := by
  cases ht
  case block hb => exact hb.keeps he h
  case guard hb =>
    have hk := hb.keeps he h
    exact hk.append <| .single rfl nofun hk.covers

theorem EmitsMain.keeps (hm : EmitsMain v ss σ code τ)
    (he : Excused S σ (Block.assignments v false (ss.flatMap mainBlock))) (h : Covers S σ vis) :
    Keeps S vis code τ := by
  induction hm generalizing vis
  case nil => exact .nil h
  case cons ht _ hi =>
    rw [List.flatMap_cons, assignments_append, excused_append, ht.introduces.scope] at he
    have hk := ht.keeps he.left h
    exact hk.append <| hi he.right hk.covers

-- The code behind the declarations at the top of a function, or of `main`.
theorem Keeps.entry (h : ∀ vis, Covers S (entry v params body) vis → Keeps S vis code τ) :
    Keeps S (params.map identifier) (Code.declarations (locals v params body) ++ code) τ := by
  have hp : Covers S params (params.map identifier) := fun n hn => .inl <| List.mem_map_of_mem hn
  have hk : Keeps S _ (Code.declarations (locals v params body)) _ := .declarations hp
  exact hk.append <| h _ hk.covers

-- Apart from strays, each name that a function or `main` assigns to is declared before that, in a block around
-- the assignment.
theorem unscoped_stray {m : Module} {t : Translation} (h : Translation.ofModule? m = some t) :
    (∀ f, .function f ∈ t.program.definitions → ∃ z name ds ps returns body,
      .functionDef z name false ds ps returns body ∈ m.body ∧
        f = (emitFunction (.ofModule m) name.text ps returns body).fst ∧
          ∀ c ∈ f.unscoped, ∃ n, identifier n = c ∧ Stray (.ofModule m) (paramNames ps) body n) ∧
      ∀ c ∈ blockUnscoped [] t.program.main,
        ∃ n, identifier n = c ∧ Stray (.ofModule m) [] (mainBody m) n := by
  constructor
  case left =>
    intro f hf
    obtain ⟨z, name, ds, ps, returns, body, hm, rfl⟩ := Translation.function_eq h hf
    refine ⟨z, name, ds, ps, returns, body, hm, rfl, ?_⟩
    obtain ⟨code, n, τ, hb, hc⟩ : ∃ code n τ, EmitsBlock (.ofModule m) body _ code n τ ∧
        (emitFunction (.ofModule m) name.text ps returns body).fst.body = _ := emitFunction_body
    have hk := Keeps.entry fun vis hv => hb.keeps excused_stray hv
    have hp : (emitFunction (.ofModule m) name.text ps returns body).fst.params.map Prod.snd =
        (paramNames ps).map identifier := by simp [emitFunction, paramNames]
    rw [Function.unscoped, hp, hc]
    exact hk.unscoped
  case right =>
    obtain ⟨code, τ, hm, hc⟩ := Translation.main_eq h
    have he : Excused (Stray (.ofModule m) [] (mainBody m)) _ _ := excused_stray
    have hk := Keeps.entry fun vis hv => hm.keeps he hv
    exact hc ▸ hk.unscoped

end

-- The list has no counterpart, and so the first declaration of the name is in the branch.
def dropped : List Char :=
  "def f(c):\n    x = [c]\n    if c > 0:\n        x = 1\n    x = 2\n    return x\nfor i in range(3):\n    n = i\nn = 2\n".toList

theorem dropped_eval : ∃ m t, Module.parse dropped = .ok m ∧ Translation.ofModule? m = some t ∧
    (∃ f, .function f ∈ t.program.definitions ∧ f.unscoped = ["x"]) ∧ blockUnscoped [] t.program.main = [] := by
  obtain ⟨_, rfl, hc⟩ : ∃ cs, dropped = cs ∧ (Module.parse cs).toOption.bind (fun m => (Translation.ofModule? m).map fun t =>
      (t.program.definitions.any fun | .function f => f.unscoped = ["x"] | _ => false,
        blockUnscoped [] t.program.main)) = some (true, []) := by
    refine ⟨_, String.toList_ofList, ?_⟩
    decide +kernel
  obtain ⟨m, hm, hc⟩ := exists_ok_of_toOption hc
  obtain ⟨t, ht, hc⟩ := Option.map_eq_some_iff.mp hc
  obtain ⟨hd, hn⟩ := Prod.mk.inj hc
  obtain ⟨d, hd, hf⟩ := List.any_eq_true.mp hd
  cases d
  case function f => exact ⟨m, t, hm, ht, ⟨f, hd, by simpa using hf⟩, hn⟩
  case placeholder => cases hf

theorem dropped_stray : ∃ m t, Module.parse dropped = .ok m ∧ Translation.ofModule? m = some t ∧
    (∃ f, .function f ∈ t.program.definitions ∧ f.unscoped = ["x"]) ∧
      (∀ f, .function f ∈ t.program.definitions → ∃ z name ds ps returns body,
        .functionDef z name false ds ps returns body ∈ m.body ∧
          f = (emitFunction (.ofModule m) name.text ps returns body).fst ∧
            ∀ c ∈ f.unscoped, ∃ n, identifier n = c ∧ Stray (.ofModule m) (paramNames ps) body n) ∧
        ∀ c ∈ blockUnscoped [] t.program.main,
          ∃ n, identifier n = c ∧ Stray (.ofModule m) [] (mainBody m) n := by
  obtain ⟨m, t, hm, ht, hf, -⟩ := dropped_eval
  exact ⟨m, t, hm, ht, hf, unscoped_stray ht⟩

-- Not all code assigns to visible names only.
theorem dropped_unscoped : ¬∀ (source : List Char) (m : Module) (t : Translation),
    Module.parse source = .ok m → Translation.ofModule? m = some t →
      (∀ f, .function f ∈ t.program.definitions → f.unscoped = []) ∧ blockUnscoped [] t.program.main = [] := by
  intro h
  obtain ⟨m, t, hm, ht, ⟨f, hf, hu⟩, -⟩ := dropped_eval
  have hn := (h dropped m t hm ht).left f hf
  rw [hu] at hn
  cases hn

end PyVerify.Code
