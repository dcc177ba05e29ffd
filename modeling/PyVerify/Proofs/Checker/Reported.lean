import PyVerify.Proofs.Checker.CommandLine
import PyVerify.Proofs.Checker.Climb

namespace PyVerify

theorem Path.suffix_join (base path : String) : path.toList <:+ (join base path).toList := by
  unfold join
  split
  case isTrue => exact List.suffix_refl _
  case isFalse =>
    split
    all_goals
      rw [String.toList_append]
      exact List.suffix_append ..

-- The checked file is never taken for an option.
theorem CheckerSettings.option_ne_file (s : CheckerSettings) {p : String} (hp : p ∈ Flags.properties) :
    Configuration.option p ≠ s.request.file := by
  have hn : ∀ p ∈ Flags.properties, ¬fileName.toList <:+ (Configuration.option p).toList := by decide
  exact fun h => hn p hp <| h ▸ Path.suffix_join ..

theorem Configuration.mem_enabled_iff {c : Configuration} {p : String} (hp : p ∈ Flags.properties) :
    p ∈ c.enabled ↔ p ∈ c.flags.optional := by
  have hn : ∀ p ∈ Flags.properties, p ∉ ["bounds-check", "div-by-zero-check", "pointer-check"] := by
    decide
  rw [enabled, List.mem_append, or_iff_right (hn p hp)]

theorem Ladder.Next.removed {l l' : Ladder} {observed : Classification} {output : String}
    {last : Invocation} {t : Transition} (n : l.Next observed output last t l') (r : Request)
    (a : Attempt) : l'.removed = l.removed ++ (Turn.record r ⟨l, a, t⟩).repaired.toList := by
  cases n
  case repair => rfl
  all_goals simp [Turn.record, Request.record]

-- What has been left out in the last turn are the options that the records tell of.
theorem Climbed.removed {r : Request} {backend : Backend} {made : List Invocation} {l : Ladder}
    {turns : List Turn} {last : Turn} (c : Climbed r backend made l turns last) :
    last.ladder.removed = l.removed ++ (turns.map (·.record r)).filterMap (·.repaired) := by
  induction c
  case finish => simp [Turn.record, Request.record]
  case next a l' turns last l t _ n _ hi =>
    rw [hi, n.removed r a, List.append_assoc, List.map_cons]
    cases h : (Turn.record r ⟨l, a, t⟩).repaired <;> simp [h]

-- A property is reported as enabled if the last invocation has its option, but also if a repair has taken
-- the option away: repairs leave the configuration, which the report is made from, as it is.
structure Reported (i : Invocation) (o : Outcome) : Prop where
  commandLine : o.commandLine = i.commandLine
  options     : ∀ p ∈ Flags.properties, i.hasOption (Configuration.option p) ↔
                  p ∈ o.enabled ∧ ∀ a ∈ o.attempts, a.repaired ≠ some (Configuration.option p)

theorem verifyWith_reported {s : CheckerSettings} {run : List String → Duration → Run}
    {backend : Backend} {w w' : Workspace} {text : String} {c : Configuration} {session : Session}
    {o : Outcome}
    (ends : (s.verifyWith (Workspace.host run) (pure backend) text c).run w = (.ok session, w'))
    (result : session.result = .ok o) :
    ∃ i, session.invocations.getLast? = some i ∧ Reported i o := by
  obtain ⟨turns, last, h, hi, rfl⟩ := CheckerSettings.exists_climbed ends result
  refine ⟨last.invocation s.request, by simp [hi, h.getLast?], rfl, fun p hp => ?_⟩
  have hr : Configuration.option p ∉ last.ladder.removed ↔
      ∀ a ∈ turns.map (·.record s.request), a.repaired ≠ some (Configuration.option p) := by
    simp [h.removed, Ladder.start]
  rw [Turn.invocation, Ladder.hasOption_iff hp, or_iff_right (s.option_ne_file hp), hr,
    ←Configuration.mem_enabled_iff hp]
  rfl

-- A checker that has no option for memory leaks, and a request to look for them.
def leakless (made : List Invocation) : Attempt :=
  match made.length with
  | 1 => ⟨some 1, "esbmc: unrecognised option 'memory-leak-check'\n", false, .ofMilliseconds 10⟩
  | _ => ⟨some 0, "VERIFICATION SUCCESSFUL\n", false, .ofMilliseconds 10⟩

def leakage : Configuration :=
  .ofFlags { Flags.none with memoryLeak := true }

theorem leakless_climbed :
    ∃ t₁ t₂,
      Climbed CheckerSettings.standard.request (fun made => .ok (leakless made)) [] (.start leakage)
        [t₁, t₂] t₂ ∧
      t₂.ladder.configuration = leakage ∧ t₂.ladder.removed = ["--memory-leak-check"] := by
  refine ⟨_, _, .next rfl (.repair ?seen ?names ?left) (.finish rfl ?ends), rfl, rfl⟩
  all_goals decide +kernel

theorem leakless_reported :
    ∃ session o,
      (CheckerSettings.standard.verifyWith (Workspace.host idle) (pure fun made => .ok (leakless made))
        "int main() { return 0; }" leakage).run .bare =
      (.ok session, .single "int main() { return 0; }") ∧
      session.result = .ok o ∧ ∃ i, session.invocations.getLast? = some i ∧ Reported i o := by
  obtain ⟨_, _, climbed, _⟩ := leakless_climbed
  have result := congrArg Session.result (climbed.climb_eq [])
  have ends := CheckerSettings.standard.verifyWith_bare rfl (fun made => .ok (leakless made))
    "int main() { return 0; }" leakage
  exact ⟨_, _, ends, result, verifyWith_reported ends result⟩

-- Its verdict is reported as one on memory leaks, although it was not asked for them in the end.
theorem leakless_enabled :
    ∃ session o i,
      (CheckerSettings.standard.verifyWith (Workspace.host idle) (pure fun made => .ok (leakless made))
        "int main() { return 0; }" leakage).run .bare =
      (.ok session, .single "int main() { return 0; }") ∧
      session.result = .ok o ∧ session.invocations.getLast? = some i ∧
      ¬("memory-leak" ∈ o.enabled ↔ i.hasOption (Configuration.option "memory-leak")) := by
  obtain ⟨t₁, t₂, climbed, hc, hr⟩ := leakless_climbed
  have run := climbed.climb_eq []
  have ends := CheckerSettings.standard.verifyWith_bare rfl (fun made => .ok (leakless made))
    "int main() { return 0; }" leakage
  refine ⟨_, _, _, ends, congrArg Session.result run, congrArg (·.invocations.getLast?) run, fun h => ?_⟩
  have hm : "memory-leak" ∈ t₂.ladder.configuration.enabled := hc ▸ by decide
  have hn := (Ladder.hasOption_iff <| by decide).mp (h.mp hm)
  exact hn.right <| hr ▸ by decide

end PyVerify
