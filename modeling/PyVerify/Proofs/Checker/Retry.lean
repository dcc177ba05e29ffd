import PyVerify.Proofs.Checker.CommandLine
import PyVerify.Proofs.Checker.Climb

namespace PyVerify

namespace Stage

-- Stages are numbered in the order in which a request may go through them.
def level : Stage → Nat
  | initial   => 0
  | escalated => 1
  | degraded  => 2

theorem level_le_degraded (s : Stage) : s.level ≤ degraded.level := by
  cases s <;> decide

-- What a stage makes of the configuration that was asked for.
def configurations (c : Configuration) : Stage → List Configuration
  | initial   => [c]
  | escalated => [c.escalated]
  | degraded  => [c.degraded, c.escalated.degraded]

end Stage

namespace Flags

-- The flags ask for nothing that the other ones do not ask for.
structure Within (f g : Flags) : Prop where
  overflow    : f.overflow    → g.overflow
  bounds      : f.bounds      → g.bounds
  divByZero   : f.divByZero   → g.divByZero
  deadlock    : f.deadlock    → g.deadlock
  pointer     : f.pointer     → g.pointer
  memoryLeak  : f.memoryLeak  → g.memoryLeak

namespace Within

variable {f g h : Flags}

theorem refl (f : Flags) : f.Within f :=
  ⟨id, id, id, id, id, id⟩

theorem trans (h₁ : f.Within g) (h₂ : g.Within h) : f.Within h where
  overflow    := h₂.overflow ∘ h₁.overflow
  bounds      := h₂.bounds ∘ h₁.bounds
  divByZero   := h₂.divByZero ∘ h₁.divByZero
  deadlock    := h₂.deadlock ∘ h₁.deadlock
  pointer     := h₂.pointer ∘ h₁.pointer
  memoryLeak  := h₂.memoryLeak ∘ h₁.memoryLeak

theorem withoutOptional (f : Flags) : f.withoutOptional.Within f :=
  ⟨nofun, id, id, nofun, id, nofun⟩

theorem optional (w : f.Within g) : f.optional ⊆ g.optional := by
  obtain ⟨ho, _, _, hd, _, hm⟩ := w
  unfold Flags.optional
  grind

end Within

end Flags

namespace Ladder

-- What happens to a ladder as a request goes on: it never goes back to an earlier stage, asks for
-- nothing new, and leaves out what it has left out before.
structure Precedes (l l' : Ladder) : Prop where
  stage   : l.stage.level ≤ l'.stage.level
  flags   : l'.configuration.flags.Within l.configuration.flags
  removed : l.removed ⊆ l'.removed

instance : IsTrans Ladder Precedes where
  trans _ _ _ h₁ h₂ :=
    ⟨h₁.stage.trans h₂.stage, h₂.flags.trans h₁.flags, List.Subset.trans h₁.removed h₂.removed⟩

variable {l l' : Ladder} {observed : Classification} {output : String} {last : Invocation}
variable {t : Transition}

theorem Next.precedes (n : l.Next observed output last t l') : l.Precedes l' := by
  cases n
  case repair           => exact ⟨Nat.le_refl _, .refl _, List.subset_append_left ..⟩
  case escalate first _ => exact ⟨by simp [first, Stage.level], .refl _, List.Subset.refl _⟩
  case degrade          => exact ⟨l.stage.level_le_degraded, .withoutOptional _, List.Subset.refl _⟩

theorem Precedes.hasOption {program file p : String} (h : l.Precedes l') (hp : p ∈ Flags.properties)
    (ho : (l'.invocation program file).hasOption (Configuration.option p)) :
    (l.invocation program file).hasOption (Configuration.option p) := by
  rw [hasOption_iff hp] at ho ⊢
  exact ⟨ho.left.imp_right (h.flags.optional ·), fun hr => ho.right (h.removed hr)⟩

theorem Next.configuration {c : Configuration} (n : l.Next observed output last t l')
    (h : l.configuration ∈ l.stage.configurations c) :
    l'.configuration ∈ l'.stage.configurations c := by
  cases n
  case repair => exact h
  case escalate first _ =>
    rw [first] at h
    have hc : l.configuration = c := List.mem_singleton.mp h
    simp [Stage.configurations, hc]
  case degrade full _ =>
    cases hs : l.stage
    case degraded => exact absurd hs full
    all_goals
      rw [hs] at h
      simp [Stage.configurations, List.mem_singleton.mp h]

end Ladder

namespace Climbed

variable {r : Request} {backend : Backend} {made : List Invocation} {l : Ladder}
variable {turns : List Turn} {last : Turn}

theorem countP_repaired_le (c : Climbed r backend made l turns last) :
    (turns.map (·.record r)).countP (·.repaired.isSome) ≤ l.repairs := by
  induction c
  case finish => exact Nat.zero_le _
  case next n _ hi =>
    rw [List.map_cons, List.countP_cons]
    cases n
    case repair left _ => simp_all [Turn.record, Request.record]; omega
    all_goals simpa [Turn.record, Request.record] using hi

end Climbed

-- A session in which a backend has been asked again in an orderly way: a few times, with ever less to look
-- for, and with a record of each time.
structure Retried (answers : List Invocation → Attempt) (c : Configuration) (s : Session) (o : Outcome) :
    Prop where
  result          : s.result = .ok o
  bounded         : s.invocations.length ≤ 4
  stages          : o.attempts.Pairwise fun a b => a.stage.level ≤ b.stage.level
  repairs         : o.attempts.countP (·.repaired.isSome) ≤ 1
  flags           : o.attempts.Pairwise fun a b => b.configuration.flags.Within a.configuration.flags
  options         : ∀ p ∈ Flags.properties, s.invocations.Pairwise fun i j =>
                      j.hasOption (Configuration.option p) → i.hasOption (Configuration.option p)
  configurations  : ∀ a ∈ o.attempts, a.configuration ∈ a.stage.configurations c
  complete        : o.attempts.length = s.invocations.length
  calls           : ∀ k a, o.attempts[k]? = some a →
                      (∃ i, s.invocations[k]? = some i ∧ a.commandLine = i.commandLine ∧
                        a.configuration = i.configuration) ∧
                      a.classification = (answers (s.invocations.take (k + 1))).classify
  last            : ∃ a, o.attempts.getLast? = some a ∧ o.classification = a.classification ∧
                      o.commandLine = a.commandLine ∧ o.configuration = a.configuration
  guidance        : o.guidance.isSome ↔
                      o.classification = .unwindingIncomplete ∨ o.classification = .timedOut

theorem Classification.guidance?_isSome {c : Classification} :
    c.guidance?.isSome ↔ c = .unwindingIncomplete ∨ c = .timedOut := by
  cases c <;> simp [guidance?]

theorem Climbed.retried {r : Request} {answers : List Invocation → Attempt} {c : Configuration}
    {turns : List Turn} {last : Turn}
    (h : Climbed r (fun made => .ok (answers made)) [] (.start c) turns last) :
    Retried answers c (r.run (fun made => .ok (answers made)) c)
      (r.outcome (last.invocation r) last.attempt last.attempt.classify (turns.map (·.record r))) := by
  have hp := h.pairwise_ladder Ladder.Next.precedes
  have hc : ∀ t ∈ turns, t.ladder.configuration ∈ t.ladder.stage.configurations c :=
    h.forall_ladder (P := fun l => l.configuration ∈ l.stage.configurations c)
      (List.mem_singleton.mpr rfl) Ladder.Next.configuration
  rw [Request.run, h.climb_eq]
  refine ⟨rfl, ?bounded, ?stages, h.countP_repaired_le, ?flags, ?options, ?configurations, ?complete,
    ?calls, ?last, Classification.guidance?_isSome⟩
  case bounded  => simpa [Ladder.start, Ladder.budget] using h.length_le_budget
  case stages   => exact List.pairwise_map.mpr <| hp.imp Ladder.Precedes.stage
  case flags    => exact List.pairwise_map.mpr <| hp.imp Ladder.Precedes.flags
  case options  => exact fun p hm => List.pairwise_map.mpr <| hp.imp (·.hasOption hm)
  case configurations =>
    intro a ha
    obtain ⟨t, ht, rfl⟩ := List.mem_map.mp ha
    exact hc t ht
  case complete => simp [Request.outcome]
  case calls =>
    intro k a ha
    obtain ⟨t, ht, rfl⟩ : ∃ t, turns[k]? = some t ∧ t.record r = a := by
      simpa [Request.outcome] using ha
    obtain ⟨hk, rfl⟩ := List.getElem?_eq_some_iff.mp ht
    have answer : answers ((turns.take (k + 1)).map (·.invocation r)) = turns[k].attempt :=
      Except.ok.inj (h.answer k hk)
    refine ⟨⟨turns[k].invocation r, by simp [hk], rfl, rfl⟩, ?_⟩
    simp only [List.nil_append, ←List.map_take, answer]
    rfl
  case last => exact ⟨last.record r, by simp [Request.outcome, h.getLast?], rfl, rfl, rfl⟩

-- A request on a file that could be written ends, if the checker always gives an answer: the checker is
-- run at most four times, and in an orderly way.
theorem verifyWith_retried {s : CheckerSettings} {run : List String → Duration → Run}
    {w w' : Workspace} {text : String} (saved : w.save s.directory s.request.file text = .ok w')
    (answers : List Invocation → Attempt) (c : Configuration) :
    ∃ session o,
      (s.verifyWith (Workspace.host run) (pure fun made => .ok (answers made)) text c).run w =
        (.ok session, w') ∧ Retried answers c session o := by
  have ends : ∀ made, ∃ a, (fun made => .ok (answers made) : Backend) made = .ok a :=
    fun made => ⟨answers made, rfl⟩
  obtain ⟨turns, last, h⟩ := Climbed.exists_of_forall_ok s.request [] (.start c) ends
  exact ⟨_, _, CheckerSettings.verifyWith_of_saved saved, h.retried⟩

-- A checker that has to be asked in every way before it gives a verdict.
def reluctant (made : List Invocation) : Attempt :=
  match made.length with
  | 1 => ⟨some 1, "unrecognised option 'memory-leak-check'", false, .ofMilliseconds 5⟩
  | 2 => ⟨some 1, "unwinding assertion loop 1", false, .ofMilliseconds 5⟩
  | 3 => ⟨some 124, "Timed out", true, .ofMilliseconds 5⟩
  | _ => ⟨some 0, "VERIFICATION SUCCESSFUL", false, .ofMilliseconds 5⟩

theorem reluctant_retried :
    ∃ session o,
      (CheckerSettings.standard.verifyWith (Workspace.host idle) (pure fun made => .ok (reluctant made))
        "int main() { return 0; }" (.ofFlags ⟨true, true, true, true, true, true⟩)).run .bare =
      (.ok session, .single "int main() { return 0; }") ∧
      Retried reluctant (.ofFlags ⟨true, true, true, true, true, true⟩) session o :=
  verifyWith_retried (Workspace.save_bare _) ..

end PyVerify
