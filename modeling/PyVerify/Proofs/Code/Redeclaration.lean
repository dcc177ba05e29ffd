import PyVerify.Parser.Statement
import PyVerify.Proofs.Code.Assembly
import PyVerify.Proofs.Code.Assignment
import PyVerify.Proofs.Token.Lexical

namespace PyVerify.Code

variable {v : Verifier} {s : PyVerify.Stmt} {ss : List PyVerify.Stmt} {σ τ : Scope} {code : List Stmt}
  {params : List String} {body : List PyVerify.Stmt} {seen : List String} {bs : List Binding}

-- The names that a function, or `main`, declares: its parameters, the names at its top, and the others where
-- they are first assigned.
def introduced (v : Verifier) (params : List String) (body : List PyVerify.Stmt) : List String :=
  params ++ (locals v params body).map Binding.name ++
    fresh (entry v params body) (Block.assignments v false body)

def Function.declared (f : Function) : List String :=
  f.params.map Prod.snd ++ blockDeclared f.body

-- The declarations in a piece of code are made for these names, and for each of them once.
structure DeclaresOnce (names declared : List String) : Prop where
  nodup : names.Nodup
  eq    : names.map identifier = declared

-- Hoisting a name keeps it from being hoisted again.
theorem hoisted_nodup : ((hoisted seen bs).map Binding.name).Nodup ∧
    ∀ n ∈ (hoisted seen bs).map Binding.name, n ∉ seen := by
  fun_induction hoisted seen bs
  case case1              => simp
  case case2 hi           => exact hi
  case case3 b bs hs _ hi =>
    obtain ⟨hd, hf⟩ := hi
    rw [List.map_cons]
    refine ⟨List.nodup_cons.mpr ⟨fun hm => hf _ hm List.mem_cons_self, hd⟩, ?_⟩
    refine List.forall_mem_cons.mpr ⟨by simpa using hs, fun n hn hm => hf n hn <| List.mem_cons_of_mem _ hm⟩
  case case4 hi           => exact ⟨hi.left, fun n hn hm => hi.right n hn <| List.mem_cons_of_mem _ hm⟩

theorem entry_nodup (h : params.Nodup) : (entry v params body).Nodup :=
  List.nodup_append.mpr ⟨hoisted_nodup.left, h, fun n hn _ hm he => hoisted_nodup.right n hn (he ▸ hm)⟩

theorem introduced_nodup (h : params.Nodup) : (introduced v params body).Nodup := by
  have he : (params ++ (locals v params body).map Binding.name).Nodup :=
    List.perm_append_comm.nodup_iff.mp <| entry_nodup h
  refine List.nodup_append.mpr ⟨he, fresh_nodup.left, fun n hn m hm heq => fresh_nodup.right m hm ?_⟩
  simpa [entry, or_comm, heq] using hn

@[simp] theorem blockDeclared_declarations :
    blockDeclared (declarations bs) = (bs.map Binding.name).map identifier := by
  induction bs <;> simp_all [declarations, blockDeclared, Stmt.declared]

theorem declared_code (h : Introduces (Block.assignments v false body) (entry v params body) (blockDeclared code) τ) :
    (introduced v params body).map identifier =
      params.map identifier ++ blockDeclared (declarations (locals v params body) ++ code) := by
  simp [introduced, ← h.names]

theorem emitFunction_declaresOnce {name : String} {ps : List (Param PyVerify.Expr)} {returns : Option PyVerify.Expr}
    (h : (paramNames ps).Nodup) :
    DeclaresOnce (introduced v (paramNames ps) body) (emitFunction v name ps returns body).fst.declared where
  nodup := introduced_nodup h
  eq := by
    obtain ⟨code, n, τ, hb, hc⟩ : ∃ code n τ, EmitsBlock v body _ code n τ ∧
        (emitFunction v name ps returns body).fst.body = _ := emitFunction_body
    rw [declared_code hb.introduces, Function.declared, hc]
    simp [emitFunction, paramNames]

-- No name of the source is declared twice in a function, or in `main`.
theorem declared_once {m : Module} {t : Translation} (h : Translation.ofModule? m = some t) :
    (∀ f, .function f ∈ t.program.definitions → ∃ z name ds ps returns body,
      .functionDef z name false ds ps returns body ∈ m.body ∧
        f = (emitFunction (.ofModule m) name.text ps returns body).fst ∧
          ((paramNames ps).Nodup → DeclaresOnce (introduced (.ofModule m) (paramNames ps) body) f.declared)) ∧
      DeclaresOnce (introduced (.ofModule m) [] (mainBody m)) (blockDeclared t.program.main) := by
  constructor
  case left =>
    intro f hf
    obtain ⟨z, name, ds, ps, returns, body, hm, rfl⟩ := Translation.function_eq h hf
    exact ⟨z, name, ds, ps, returns, body, hm, rfl, emitFunction_declaresOnce⟩
  case right =>
    obtain ⟨code, τ, hc, he⟩ := Translation.main_eq h
    have hi : Introduces (Block.assignments (.ofModule m) false (mainBody m)) _ _ _ := hc.introduces
    exact ⟨introduced_nodup .nil, he ▸ declared_code hi⟩

-- A parameter, a loop, a branch, an annotation, and two names of the source that are spelled alike in the code.
def reused : List Char :=
  ("def f(a, int):\n    py_int: float\n    for i in range(a):\n        a = i\n    if a:\n        x = int\n" ++
    "    x = i = 1\n    py_int = 2.5\nn = 1\nif __name__ == '__main__':\n    for n in range(2):\n        k = n\n").toList

theorem reused_declared_once : ∃ m t, Module.parse reused = .ok m ∧ Translation.ofModule? m = some t ∧
    t.functions = ["f"] ∧ blockDeclared t.program.main = ["k", "n"] ∧
      (∀ f, .function f ∈ t.program.definitions → ∃ z name ds ps returns body,
        .functionDef z name false ds ps returns body ∈ m.body ∧
          f = (emitFunction (.ofModule m) name.text ps returns body).fst ∧
            ((paramNames ps).Nodup → DeclaresOnce (introduced (.ofModule m) (paramNames ps) body) f.declared)) ∧
      DeclaresOnce (introduced (.ofModule m) [] (mainBody m)) (blockDeclared t.program.main) := by
  obtain ⟨_, rfl, hc⟩ : ∃ cs, reused = cs ∧ (Module.parse cs).toOption.bind (fun m => (Translation.ofModule? m).map
      fun t => (t.functions, blockDeclared t.program.main)) = some (["f"], ["k", "n"]) := by
    refine ⟨_, toList_append_of String.toList_ofList String.toList_ofList, ?_⟩
    decide +kernel
  obtain ⟨m, hm, hc⟩ := exists_ok_of_toOption hc
  obtain ⟨t, ht, hc⟩ := Option.map_eq_some_iff.mp hc
  obtain ⟨hf, hn⟩ := Prod.mk.inj hc
  exact ⟨m, t, hm, ht, hf, hn, declared_once ht⟩

end PyVerify.Code
