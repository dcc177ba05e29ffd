import PyVerify.Proofs.Code.Noted
import PyVerify.Proofs.Profile.Distinct

namespace PyVerify

open Code (Origin Verifier mainBlock mainBody)

-- The calls in a function that is translated.
def Stmt.functionOrigins (v : Verifier) : Stmt → List Origin
  | .functionDef _ _ false _ _ _ block => Block.origins true v block
  | _ => []

-- The calls of a module that become code: those of its functions, and then those of `main`.
def Module.origins (m : Module) : List Origin :=
  m.body.flatMap (Stmt.functionOrigins <| .ofModule m) ++ Block.origins true (.ofModule m) (mainBody m)

namespace Code

open List (Forall₂)

-- The primitive that is called.
def Origin.primitive? (v : Verifier) : Origin → Option String
  | .call (.call _ func _ _)  => v.primitive? func
  | _                         => none

def Definition.calls : Definition → List Term
  | .function f     => blockCalls f.body
  | .placeholder _  => []

-- The calls in a program, in the order of the text.
def Program.calls (p : Program) : List Term :=
  p.definitions.flatMap Definition.calls ++ blockCalls p.main

variable {v : Verifier}

theorem Origin.exists_call {o : Origin} {p : String} (h : o.primitive? v = some p) :
    ∃ s func args keywords, o = .call (.call s func args keywords) ∧ v.primitive? func = some p := by
  unfold primitive? at h
  split at h
  case h_1 => exact ⟨_, _, _, _, rfl, h⟩
  case h_2 => cases h

theorem Stands.eq_of_primitive {o : Origin} {t : Term} {p : String} (h : Stands v o t) (hp : o.primitive? v = some p)
    (hn : Verifier.isNondet p) : t = .call p [] := by
  obtain ⟨_, _, _, _, rfl, hp⟩ := Origin.exists_call hp
  cases h
  case call h =>
    obtain ⟨_, hl⟩ := h
    exact (hl.of_primitive hp hn).left

theorem Origin.Noted.primitive {o : Origin} {n : Notes} {p : String} (h : o.Noted v n) (hp : o.primitive? v = some p)
    (hn : Verifier.isNondet p) : p ∈ n.primitives := by
  obtain ⟨_, _, _, _, rfl, hp⟩ := Origin.exists_call hp
  exact Code.Noted.primitive h hp hn

@[simp] theorem blockCalls_declarations {names : List Binding} : blockCalls (declarations names) = [] := by
  unfold declarations
  induction names <;> simp_all [blockCalls, Stmt.calls]

@[simp] theorem origins_append {copies : Bool} {ss rest : List PyVerify.Stmt} :
    Block.origins copies v (ss ++ rest) = Block.origins copies v ss ++ Block.origins copies v rest := by
  induction ss <;> simp_all [Block.origins]

theorem function_stands (s : PyVerify.Stmt) :
    Forall₂ (Stands v) (s.functionOrigins v) ((definition? v s).toList.flatMap Definition.calls) := by
  fun_cases definition? v s
  case case1 name _ params returns body =>
    obtain ⟨code, n, τ, hc, hb⟩ := @emitFunction_body v name.text params returns body
    simpa [Definition.calls, hb, Stmt.functionOrigins] using hc.stands
  case case2 isAsync _ _ _ _ h =>
    cases isAsync
    case false  => exact (h rfl).elim
    case true   => exact .nil
  case case3 => exact .nil
  case case4 hf _ _ => exact Stmt.functionOrigins.eq_2 v s hf ▸ .nil

theorem definitions_stand {ss : List PyVerify.Stmt} :
    Forall₂ (Stands v) (ss.flatMap (Stmt.functionOrigins v))
      ((ss.filterMap (definition? v)).flatMap Definition.calls) := by
  induction ss
  case nil => exact .nil
  case cons s ss hi =>
    have hs := List.rel_append (function_stands s) hi
    rw [List.filterMap_cons]
    split
    case h_1 hd => simpa [hd] using hs
    case h_2 hd => simpa [hd] using hs

theorem EmitsMain.stands {ss : List PyVerify.Stmt} {σ τ : Scope} {code : List Stmt}
    (h : EmitsMain v ss σ code τ) :
    Forall₂ (Stands v) (Block.origins true v (ss.flatMap mainBlock)) (blockCalls code) := by
  induction h
  case nil => exact .nil
  case cons h _ hi =>
    rw [List.flatMap_cons, origins_append, blockCalls_append]
    refine List.rel_append ?_ hi
    cases h
    case block h => exact h.stands
    case guard h => simpa [blockCalls, Stmt.calls] using h.stands

-- Each call in the program stands for the call of the source in the same place.
theorem Translation.calls_stand {m : Module} {t : Translation} (h : ofModule? m = some t) :
    Forall₂ (Stands (.ofModule m)) m.origins t.program.calls := by
  obtain ⟨code, τ, hc, hm⟩ := main_eq h
  rw [Module.origins, Program.calls, definitions_eq h, hm, blockCalls_append, blockCalls_declarations]
  exact List.rel_append definitions_stand hc.stands

theorem noted_of_emitTopLevel {s : PyVerify.Stmt} {σ : Scope} :
    ∀ o ∈ s.functionOrigins v ++ Block.origins true v (mainBlock s),
      o.Noted v (emitTopLevel v s σ).notes := by
  have written : ∀ o ∈ s.origins true v, o.Noted v (emitStmt v s σ).notes := (Emits.of_emitStmt s rfl).noted
  fun_cases emitTopLevel v s
  case case1 block =>
    simp only [Stmt.functionOrigins, mainBlock, Block.origins, List.append_nil]
    exact (EmitsBlock.of_emitBlock block rfl).noted
  case case2 isAsync _ _ _ _ h =>
    cases isAsync
    case false  => exact (h rfl).elim
    case true   => simp [Stmt.functionOrigins, mainBlock, Block.origins]
  case case3 => simp [Stmt.functionOrigins, mainBlock, Block.origins]
  case case4 z test block other hg =>
    have hb : ∀ o ∈ Block.origins true v block, o.Noted v (emitBlock v block σ).notes :=
      (EmitsBlock.of_emitBlock block rfl).noted
    simpa [Stmt.functionOrigins, mainBlock, hg, bind, pure] using hb
  case case5 z test block other hg =>
    simpa [Stmt.functionOrigins, mainBlock, hg, Block.origins, bind, pure] using written
  case case6 hf hd hc hi =>
    have hm : mainBlock s = [s] := mainBlock.eq_4 s hd hc hi
    have ho : s.functionOrigins v = [] := Stmt.functionOrigins.eq_2 v s hf
    simpa [ho, hm, Block.origins, bind, pure] using written

theorem noted_of_emitTopLevels {ss : List PyVerify.Stmt} {σ : Scope} :
    ∀ o ∈ ss.flatMap (Stmt.functionOrigins v) ++ Block.origins true v (ss.flatMap mainBlock),
      o.Noted v (emitTopLevels v ss σ).notes := by
  induction ss generalizing σ
  case nil => nofun
  case cons s ss hi =>
    have hs : ∀ o ∈ s.functionOrigins v ++ Block.origins true v (mainBlock s),
        o.Noted v (emitTopLevels v (s :: ss) σ).notes := by
      intro o ho
      simp only [emitTopLevels, bind, pure, Notes.append_none]
      exact (noted_of_emitTopLevel o ho).left
    have hss : ∀ o ∈ ss.flatMap (Stmt.functionOrigins v) ++ Block.origins true v (ss.flatMap mainBlock),
        o.Noted v (emitTopLevels v (s :: ss) σ).notes := by
      intro o ho
      simp only [emitTopLevels, bind, pure, Notes.append_none]
      exact (hi o ho).right
    simp only [List.flatMap_cons, origins_append, List.forall_mem_append] at hs hss ⊢
    exact ⟨⟨hs.left, hss.left⟩, hs.right, hss.right⟩

namespace Translation

variable {m : Module} {t : Translation} {o : Origin} {p : String}

theorem primitives_eq (h : ofModule? m = some t) :
    ∃ σ, t.program.primitives =
      (distinct (emitTopLevels (.ofModule m) m.body σ).notes.primitives).map fun p => (primitiveType p, p) := by
  simp only [ofModule?] at h
  split at h
  case isTrue   => cases h
  case isFalse  =>
    cases h
    exact ⟨_, rfl⟩

theorem mem_calls (h : ofModule? m = some t) (ho : o ∈ m.origins) (hp : o.primitive? (.ofModule m) = some p)
    (hn : Verifier.isNondet p) : .call p [] ∈ t.program.calls := by
  have hs := calls_stand h
  obtain ⟨i, hi, rfl⟩ := List.getElem_of_mem ho
  have hc : Stands _ m.origins[i] _ := hs.get hi (hs.length_eq ▸ hi)
  exact hc.eq_of_primitive hp hn ▸ List.get_mem _ _

-- Whatever primitive is called is among the declarations,
theorem mem_primitives (h : ofModule? m = some t) (ho : o ∈ m.origins) (hp : o.primitive? (.ofModule m) = some p)
    (hn : Verifier.isNondet p) : (primitiveType p, p) ∈ t.program.primitives := by
  obtain ⟨σ, he⟩ := primitives_eq h
  have noted : o.Noted (.ofModule m) (emitTopLevels (.ofModule m) m.body σ).notes := noted_of_emitTopLevels o ho
  rw [he]
  exact List.mem_map_of_mem (mem_addDistinct.mpr (.inr (noted.primitive hp hn)))

-- and no primitive is declared twice.
theorem primitives_nodup (h : ofModule? m = some t) : (t.program.primitives.map Prod.snd).Nodup := by
  obtain ⟨σ, he⟩ := primitives_eq h
  rw [he, List.map_map, Function.comp_def, List.map_id']
  exact addDistinct_nodup .nil

end Translation

end Code
end PyVerify
