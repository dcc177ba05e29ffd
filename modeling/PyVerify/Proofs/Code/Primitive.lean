import PyVerify.Proofs.Code.Lexical
import PyVerify.Proofs.Profile.Distinct

namespace PyVerify.Code

-- The primitives that are noted have names of the source.
def Notes.Lexical (n : Notes) : Prop :=
  ∀ p ∈ n.primitives, (Word.name p).IsLexical

namespace Notes.Lexical

variable {m n : Notes} {cs : List Check}

theorem none : Notes.none.Lexical :=
  nofun

theorem checks : Notes.Lexical ⟨cs, []⟩ :=
  nofun

theorem append (h : m.Lexical) (g : n.Lexical) : (m ++ n).Lexical :=
  List.forall_mem_append.mpr ⟨h, g⟩

end Notes.Lexical

variable {v : Verifier}

mutual

theorem Lowers.notes_lexical (hv : v.Lexical) : Lowers v e t n → e.Lexical → n.Lexical
  | .name, _ | .int, _ | .float, _ | .str, _ | .truth, _ | .none, _ => .none
  | .binary _ hl hr, he =>
    .append .checks <| .append (hl.notes_lexical hv (he.part .left)) (hr.notes_lexical hv (he.part .right))
  | .unary h, he => h.notes_lexical hv (he.part .operand)
  | .junction hs, he => hs.notes_lexical hv fun _ hx => he.part (.value hx)
  | .compare hl hs, he =>
    .append (hl.notes_lexical hv (he.part .compared)) <|
      hs.notes_lexical hv <| List.forall_mem_map.mpr fun _ hl => he.part (.link hl)
  | .assume _ hs, he | .call _ hs, he => hs.notes_lexical hv fun _ hx => he.part (.arg hx)
  | .nondet hp hn hs, he => by
    refine .append (hs.notes_lexical hv fun _ hx => he.part (.arg hx)) <| List.forall_mem_singleton.mpr ?_
    exact .inr ⟨_, hv.primitive? (he.part .func) hp, identifier_of_isNondet hn⟩
  | .attr _ h, he => .append .checks <| h.notes_lexical hv (he.part .receiver)
  | .subscript _ h hx, he =>
    .append .checks <| .append (h.notes_lexical hv (he.part .indexed)) (hx.notes_lexical hv (he.part .index))
  | .conditional ht hb ho, he =>
    .append (ht.notes_lexical hv (he.part .test)) <|
      .append (hb.notes_lexical hv (he.part .body)) (ho.notes_lexical hv (he.part .orelse))

theorem LowersAll.notes_lexical (hv : v.Lexical) : LowersAll v es ts n → (∀ e ∈ es, e.Lexical) → n.Lexical
  | .nil, _ => .none
  | .cons h hs, he => by
    obtain ⟨he, hes⟩ := List.forall_mem_cons.mp he
    exact .append (h.notes_lexical hv he) (hs.notes_lexical hv hes)

end

theorem Tests.notes_lexical (h : Tests v e c n) (hv : v.Lexical) (he : e.Lexical) : n.Lexical := by
  cases h
  case term h       => exact h.notes_lexical hv he
  case unsupported  => exact .none

theorem Places.notes_lexical (h : Places v e p n) (hv : v.Lexical) (he : e.Lexical) : n.Lexical := by
  cases h
  case name   => exact .none
  case term h => exact h.notes_lexical hv he

theorem PlacesAll.notes_lexical (h : PlacesAll v es ps n) (hv : v.Lexical) (he : ∀ e ∈ es, e.Lexical) :
    n.Lexical := by
  induction h
  case nil => exact .none
  case cons h _ hi =>
    obtain ⟨he, hes⟩ := List.forall_mem_cons.mp he
    exact .append (h.notes_lexical hv he) (hi hes)

theorem Ranges.notes_lexical (h : Ranges v target iter σ declaration header n τ) (hv : v.Lexical)
    (hi : iter.Lexical) : n.Lexical := by
  obtain ⟨hr, ha⟩ := h
  exact ha.notes_lexical hv (lexical_of_rangeArgs hr hi)

mutual

theorem Emits.notes_lexical (hv : v.Lexical) : Emits v s σ code n τ → s.Lexical → n.Lexical
  | .silent _, _ | .placeholder _, _ | .break, _ | .continue, _ | .returnZero, _ | .returnUnsupported _, _
  | .typed _, _ | .typedPlace _, _ => .none
  | .return h, hs => h.notes_lexical hv (hs.part .returned)
  | .assign _ h hp _, hs =>
    .append (h.notes_lexical hv (hs.part .assignment)) (hp.notes_lexical hv fun _ hx => hs.part (.assigned hx))
  | .annAssign h hp _, hs =>
    .append (h.notes_lexical hv (hs.part .annotatedValue)) (hp.notes_lexical hv (hs.part .annotated))
  | .augAssign _ ht h, hs =>
    .append .checks <|
      .append (ht.notes_lexical hv (hs.part .augmented)) (h.notes_lexical hv (hs.part .augment))
  | .expr _ h, hs => h.notes_lexical hv (hs.part .alone)
  | .assert h, hs => h.notes_lexical hv (hs.part .asserted)
  | .if ht hb ho, hs =>
    .append (ht.notes_lexical hv (hs.part .ifTest)) <|
      .append (hb.notes_lexical hv fun _ hm => hs.part (.ifBody hm))
        (ho.notes_lexical hv fun _ hm => hs.part (.ifElse hm))
  | .while ht hb, hs =>
    .append (ht.notes_lexical hv (hs.part .whileTest)) (hb.notes_lexical hv fun _ hm => hs.part (.whileBody hm))
  | .for hr hb, hs =>
    .append (hr.notes_lexical hv (hs.part .forIter)) (hb.notes_lexical hv fun _ hm => hs.part (.forBody hm))

theorem EmitsBlock.notes_lexical (hv : v.Lexical) :
    EmitsBlock v ss σ code n τ → (∀ s ∈ ss, s.Lexical) → n.Lexical
  | .nil, _ => .none
  | .cons h hs, hl => by
    obtain ⟨hl, hls⟩ := List.forall_mem_cons.mp hl
    exact .append (h.notes_lexical hv hl) (hs.notes_lexical hv hls)

theorem EmitsOrelse.notes_lexical (hv : v.Lexical) :
    EmitsOrelse v ss σ more final n τ → (∀ s ∈ ss, s.Lexical) → n.Lexical
  | .nil, _ => .none
  | .elif ht hb ho, hl => by
    have hs := hl _ List.mem_cons_self
    exact .append (ht.notes_lexical hv (hs.part .ifTest)) <|
      .append (hb.notes_lexical hv fun _ hm => hs.part (.ifBody hm))
        (ho.notes_lexical hv fun _ hm => hs.part (.ifElse hm))
  | .else _ _ h, hl => h.notes_lexical hv hl

end

theorem notes_lexical_of_emitTopLevel {s : PyVerify.Stmt} {σ : Scope} (hv : v.Lexical) (hs : s.Lexical) :
    (emitTopLevel v s σ).notes.Lexical := by
  have written : (emitStmt v s σ).notes.Lexical := (Emits.of_emitStmt s rfl).notes_lexical hv hs
  fun_cases emitTopLevel v s
  case case1 block =>
    exact (EmitsBlock.of_emitBlock block rfl).notes_lexical hv fun _ hm => hs.part (.functionBody hm)
  case case2 | case3 => exact .none
  case case4 block _ _ =>
    have hb : (emitBlock v block σ).notes.Lexical :=
      (EmitsBlock.of_emitBlock block rfl).notes_lexical hv fun _ hm => hs.part (.ifBody hm)
    simpa [bind, pure] using hb
  case case5 | case6 => simpa [bind, pure] using written

theorem notes_lexical_of_emitTopLevels {ss : List PyVerify.Stmt} {σ : Scope} (hv : v.Lexical)
    (hs : ∀ s ∈ ss, s.Lexical) : (emitTopLevels v ss σ).notes.Lexical := by
  induction ss generalizing σ
  case nil => exact .none
  case cons s ss hi =>
    obtain ⟨hs, hss⟩ := List.forall_mem_cons.mp hs
    simp only [emitTopLevels, bind, pure, Notes.append_none]
    exact .append (notes_lexical_of_emitTopLevel hv hs) (hi hss)

-- What a text guarantees of a program that it is translated to.
structure Program.Lexical (p : Program) : Prop where
  primitives    : ∀ q ∈ p.primitives, (Word.name q.snd).IsLexical
  functions     : ∀ f, .function f ∈ p.definitions → f.Lexical
  placeholders  : ∀ what, .placeholder what ∈ p.definitions → (Word.message what.message).IsLexical
  main          : Code.Lexical p.main

theorem Translation.lexical {m : Module} {t : Translation} (h : ofModule? m = some t) (hm : ∀ s ∈ m.body, s.Lexical) :
    t.program.Lexical where
  primitives := by
    have hv := Verifier.Lexical.of_module hm
    simp only [ofModule?] at h
    split at h
    case isTrue => cases h
    case isFalse =>
      cases h
      refine List.forall_mem_map.mpr fun p hp => ?_
      exact notes_lexical_of_emitTopLevels hv hm p <| (mem_addDistinct.mp hp).resolve_left List.not_mem_nil
  functions f hf := by
    obtain ⟨_, _, _, _, _, _, hs, rfl⟩ := function_eq h hf
    exact .of_emitFunction (.of_module hm) (hm _ hs)
  placeholders what hw := by
    rw [definitions_eq h, List.mem_filterMap] at hw
    obtain ⟨s, -, hd⟩ := hw
    unfold definition? at hd
    split at hd
    all_goals cases hd
    all_goals exact Placeholder.lexical_of_detail isRemark_describe_stmt
  main := by
    obtain ⟨code, τ, hc, he⟩ := main_eq h
    rw [he]
    exact .append (lexical_locals <| lexical_mainBody hm) (hc.lexical (.of_module hm) hm)

end PyVerify.Code
