import Mathlib.Data.List.Chain
import PyVerify.Checker.Ladder
import PyVerify.Proofs.Text.Line

namespace PyVerify

-- The properties that have an option of their own.
def Flags.properties : List String := ["overflow", "deadlock", "memory-leak"]

theorem Flags.optional_subset (f : Flags) : f.optional ⊆ Flags.properties := by
  unfold optional properties
  grind

theorem repr_ne {n : Nat} {s : String} {c : Char} (hc : c ∈ s.toList) (hd : ¬c.isDigit) :
    n.repr ≠ s := by
  rintro rfl
  exact Text.not_mem_repr hd n hc

namespace Ladder

variable {removed args : List String} {arg : String}

theorem repr_not_mem_valuedOptions (n : Nat) : n.repr ∉ valuedOptions := by
  have hu : n.repr ≠ "--unwind"   := repr_ne (c := '-') (by decide) (by decide)
  have ht : n.repr ≠ "--timeout"  := repr_ne (c := '-') (by decide) (by decide)
  simp [valuedOptions, hu, ht]

-- An argument that is nowhere the value of an option stays unless it is removed itself.
theorem mem_without_iff (h : args.IsChain fun a b => a ∈ valuedOptions → b ≠ arg) :
    arg ∈ without removed args ↔ arg ∈ args ∧ arg ∉ removed := by
  fun_induction without removed args
  case case1 => simp
  case case2 hr _ => grind
  case case3 hr hv _ _ hi =>
    rw [hi h.tail.tail]
    obtain ⟨hb, _⟩ := List.isChain_cons_cons.mp h
    grind
  case case4 hi =>
    rw [hi h.tail]
    grind
  case case5 hi =>
    rw [List.mem_cons, hi h.tail]
    grind

end Ladder

namespace Configuration

theorem option_injective : Function.Injective option := by
  intro p q h
  replace h : "--" ++ p ++ "-check" = "--" ++ q ++ "-check" := h
  simpa using h

theorem option_not_mem_valuedOptions : ∀ p ∈ Flags.properties, option p ∉ Ladder.valuedOptions := by
  decide

theorem repr_ne_option (n : Nat) : ∀ p ∈ Flags.properties, n.repr ≠ option p := by
  intro p hp
  have hc : ∀ p ∈ Flags.properties, '-' ∈ (option p).toList := by decide
  exact repr_ne (hc p hp) (by decide)

variable {c : Configuration} {file p : String}

theorem arguments_eq (c : Configuration) (file : String) :
    c.arguments file =
      file :: "--unwind" :: c.unwind.repr :: "--timeout" :: c.timeout.repr ::
        c.flags.optional.map option := rfl

theorem option_mem_arguments_iff (hp : p ∈ Flags.properties) :
    option p ∈ c.arguments file ↔ option p = file ∨ p ∈ c.flags.optional := by
  have hv := option_not_mem_valuedOptions p hp
  have hu := repr_ne_option c.unwind p hp
  have ht := repr_ne_option c.timeout p hp
  simp only [Ladder.valuedOptions, List.mem_cons, List.not_mem_nil, or_false, not_or] at hv
  rw [arguments_eq]
  simp [hv, hu.symm, ht.symm, option_injective.eq_iff]

-- None of the options of properties is taken for a value.
theorem arguments_isChain (hp : p ∈ Flags.properties) :
    (c.arguments file).IsChain fun a b => a ∈ Ladder.valuedOptions → b ≠ option p := by
  have hv := option_not_mem_valuedOptions p hp
  have hu := repr_ne_option c.unwind p hp
  have ht := repr_ne_option c.timeout p hp
  have hn : ∀ a ∈ c.timeout.repr :: c.flags.optional.map option, a ∉ Ladder.valuedOptions := by
    refine List.forall_mem_cons.mpr ⟨Ladder.repr_not_mem_valuedOptions _, fun a ha => ?_⟩
    obtain ⟨q, hq, rfl⟩ := List.mem_map.mp ha
    exact option_not_mem_valuedOptions q (c.flags.optional_subset hq)
  have ho : (c.timeout.repr :: c.flags.optional.map option).IsChain
      fun a b => a ∈ Ladder.valuedOptions → b ≠ option p :=
    (List.pairwise_of_forall_mem_list fun a ha _ _ hm => absurd hm (hn a ha)).isChain
  simp only [arguments_eq, List.isChain_cons_cons]
  refine ⟨fun _ => ?_, fun _ => hu, fun _ => ?_, fun _ => ht, ho⟩
  · exact fun h => hv (h ▸ by decide)
  · exact fun h => hv (h ▸ by decide)

end Configuration

-- A property's option stands on a command line if the property is asked for, unless the option has been
-- removed. (A file of that name looks like the option.)
theorem Ladder.hasOption_iff {l : Ladder} {program file p : String} (hp : p ∈ Flags.properties) :
    (l.invocation program file).hasOption (Configuration.option p) ↔
      (Configuration.option p = file ∨ p ∈ l.configuration.flags.optional) ∧
        Configuration.option p ∉ l.removed := by
  rw [←Configuration.option_mem_arguments_iff hp, ←mem_without_iff (Configuration.arguments_isChain hp)]
  exact List.contains_iff_mem

end PyVerify
