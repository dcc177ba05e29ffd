import PyVerify.Proofs.Checker.Verdict

namespace PyVerify

open Text

theorem Attempt.classify_eq_timedOut_iff {a : Attempt} :
    a.classify = .timedOut ↔
      ¬Complains a.output.toList ∧ ¬marks unwindingMarker a.output ∧ ¬marks failureMarker a.output ∧
        ¬(marks successMarker a.output ∧ a.exitCode = some 0) ∧
        (a.timedOut ∨ marks timeoutMarker a.output ∨ a.exitCode = some 124) := by
  rw [←unrecognisedOption?_isSome_iff]
  unfold classify
  grind

-- An attempt is answered as one that ran out of time: with a second one that has less to look for, or with the
-- end of the request.
theorem Ladder.advance_timedOut_iff {l : Ladder} {observed : Classification} {output : String}
    {last : Invocation} :
    ((l.advance observed output last).1 = .degrade ∨ (l.advance observed output last).1 = .finish .timedOut) ↔
      observed = .timedOut := by
  obtain ⟨t, l', n⟩ | he := l.advance_cases observed output last
  · rw [n.advance_eq]
    cases n <;> simp_all
  · simp [he]

-- The place of a turn in a session: what follows it there is what its ladder says.
structure Turn.Takes (r : Request) (s : Session) (k : Nat) (t : Turn) : Prop where
  invocation : s.invocations[k]? = some (t.invocation r)
  record     : ∀ o, s.result = .ok o → o.attempts[k]? = some (t.record r)
  transition : (t.ladder.advance t.attempt.classify t.attempt.output (t.invocation r)).1 = t.transition
  goesOn     : t.transition.ending? = none →
                 s.invocations[k + 1]? = some
                   ((t.ladder.advance t.attempt.classify t.attempt.output (t.invocation r)).2.invocation
                     r.program r.file)
  ends       : ∀ c, t.transition.ending? = some c →
                 s.invocations.length = k + 1 ∧ ∃ o, s.result = .ok o ∧ o.classification = c

namespace Request

variable {backend : Backend} {made : List Invocation} {l : Ladder} {a : Attempt} {o : Outcome}

theorem getElem?_of_isPrefix {α : Type} {x : α} {xs ys : List α} (h : xs ++ [x] <+: ys) :
    ys[xs.length]? = some x := by
  obtain ⟨rest, rfl⟩ := h
  simp

-- A request adds to the invocations and to the records that there are.
theorem climb_extends (r : Request) (backend : Backend) (made : List Invocation)
    (attempts : List AttemptRecord) (l : Ladder) :
    made ++ [l.invocation r.program r.file] <+: (r.climb backend made attempts l).invocations ∧
      ∀ o, (r.climb backend made attempts l).result = .ok o → attempts <+: o.attempts := by
  cases h : backend (made ++ [l.invocation r.program r.file])
  case error e =>
    rw [climb_error attempts h]
    exact ⟨List.prefix_rfl, fun _ hr => by cases hr⟩
  case ok a =>
    obtain ⟨t, l', n⟩ | he := l.advance_cases a.classify a.output (l.invocation r.program r.file)
    · have := n.budget_lt
      rw [climb_next attempts h n]
      obtain ⟨hi, ho⟩ := climb_extends r backend (made ++ [l.invocation r.program r.file])
        (attempts ++ [Turn.record r ⟨l, a, t⟩]) l'
      exact ⟨(List.prefix_append ..).trans hi, fun o hr => (List.prefix_append ..).trans (ho o hr)⟩
    · rw [climb_finish attempts h he]
      exact ⟨List.prefix_rfl, fun o hr => Except.ok.inj hr ▸ List.prefix_append ..⟩
termination_by l.budget

section Takes

variable {r : Request} {backend : Backend} {made : List Invocation} {attempts : List AttemptRecord}
variable {l l' : Ladder} {a : Attempt} {t : Transition}

theorem takes_finish (level : attempts.length = made.length)
    (answer : backend (made ++ [l.invocation r.program r.file]) = .ok a)
    (ends : l.advance a.classify a.output (l.invocation r.program r.file) = (.finish a.classify, l)) :
    Turn.Takes r (r.climb backend made attempts l) made.length ⟨l, a, .finish a.classify⟩ := by
  rw [climb_finish attempts answer ends]
  refine ⟨?invocation, ?record, congrArg Prod.fst ends, nofun, ?ends⟩
  case invocation => exact getElem?_of_isPrefix List.prefix_rfl
  case record =>
    intro o ho
    rw [←Except.ok.inj ho, ←level]
    exact getElem?_of_isPrefix List.prefix_rfl
  case ends => exact fun c hc => ⟨by simp, _, rfl, Option.some.inj hc⟩

theorem takes_next (level : attempts.length = made.length)
    (answer : backend (made ++ [l.invocation r.program r.file]) = .ok a)
    (next : l.Next a.classify a.output (l.invocation r.program r.file) t l') :
    Turn.Takes r (r.climb backend made attempts l) made.length ⟨l, a, t⟩ := by
  obtain ⟨hi, ho⟩ := r.climb_extends backend (made ++ [l.invocation r.program r.file])
    (attempts ++ [Turn.record r ⟨l, a, t⟩]) l'
  rw [climb_next attempts answer next]
  refine ⟨?invocation, ?record, congrArg Prod.fst next.advance_eq, ?goesOn, ?ends⟩
  case invocation  => exact getElem?_of_isPrefix ((List.prefix_append ..).trans hi)
  case record      => exact fun o hr => level ▸ getElem?_of_isPrefix (ho o hr)
  case goesOn      =>
    intro _
    have hs := getElem?_of_isPrefix hi
    rw [List.length_append] at hs
    exact hs.trans (by rw [Turn.invocation, next.advance_eq])
  case ends        => exact fun c hc => (Option.some_ne_none c (hc.symm.trans next.ending?_eq_none)).elim

-- Every attempt of a request belongs to a turn.
theorem climb_takes {made : List Invocation} {attempts : List AttemptRecord} {l : Ladder}
    (level : attempts.length = made.length) {k : Nat} (new : made.length ≤ k)
    (within : k < (r.climb backend made attempts l).invocations.length)
    (answer : backend ((r.climb backend made attempts l).invocations.take (k + 1)) = .ok a) :
    ∃ t : Turn, t.attempt = a ∧ t.Takes r (r.climb backend made attempts l) k := by
  cases h : backend (made ++ [l.invocation r.program r.file])
  case error e =>
    rw [climb_error attempts h] at within answer
    rw [List.length_append, List.length_singleton] at within
    rw [List.take_of_length_le (by simp; omega), h] at answer
    cases answer
  case ok b =>
    obtain rfl | hk := Nat.eq_or_lt_of_le new
    · obtain rfl : b = a := by
        obtain ⟨later, hl⟩ := (r.climb_extends backend made attempts l).left
        rw [←hl, List.take_append_of_le_length (by simp), List.take_of_length_le (by simp), h] at answer
        exact Except.ok.inj answer
      obtain ⟨t, l', n⟩ | he := l.advance_cases b.classify b.output (l.invocation r.program r.file)
      · exact ⟨_, rfl, takes_next level h n⟩
      · exact ⟨_, rfl, takes_finish level h he⟩
    · obtain ⟨t, l', n⟩ | he := l.advance_cases b.classify b.output (l.invocation r.program r.file)
      · have := n.budget_lt
        rw [climb_next attempts h n] at within answer ⊢
        refine climb_takes ?_ ?_ within answer
        · simp [level]
        · simp
          omega
      · rw [climb_finish attempts h he, List.length_append, List.length_singleton] at within
        omega
termination_by l.budget

end Takes

end Request

-- Which attempts with a verdict are answered as ones that ran out of time. A violation is never lost that way.
-- A success is, unless the exit was clean.
structure Timed (a : Attempt) (t : Transition) : Prop where
  answered  : t = .degrade ∨ t = .finish .timedOut ↔ a.classify = .timedOut
  violation : Occurs failureMarker.toList a.output.toList → a.classify ≠ .timedOut
  success   : Occurs successMarker.toList a.output.toList →
                (a.classify = .timedOut ↔
                  a.exitCode ≠ some 0 ∧
                  (a.timedOut ∨ Occurs timeoutMarker.toList a.output.toList ∨ a.exitCode = some 124) ∧
                  ¬Occurs failureMarker.toList a.output.toList ∧
                  ¬Occurs unwindingMarker.toList a.output.toList ∧ ¬Complains a.output.toList)

theorem Turn.Takes.timed {r : Request} {s : Session} {k : Nat} {t : Turn} (h : t.Takes r s k) :
    Timed t.attempt t.transition where
  answered := by
    rw [←h.transition]
    exact Ladder.advance_timedOut_iff
  violation hm ht := (Attempt.classify_eq_timedOut_iff.mp ht).right.right.left (marks_iff.mpr hm)
  success hm := by
    simp only [Attempt.classify_eq_timedOut_iff, marks_iff]
    constructor
    case mp   => exact fun ⟨hc, hu, hf, hs, ht⟩ => ⟨fun he => hs ⟨hm, he⟩, ht, hf, hu, hc⟩
    case mpr  => exact fun ⟨he, ht, hf, hu, hc⟩ => ⟨hc, hu, hf, fun hs => he hs.right, ht⟩

-- Whatever the checker answers, also if it fails in the end: each attempt of a session has its turn there.
theorem verifyWith_timed {s : CheckerSettings} {run : List String → Duration → Run}
    {backend : Backend} {w w' : Workspace} {text : String} {c : Configuration} {session : Session}
    (ends : (s.verifyWith (Workspace.host run) (pure backend) text c).run w = (.ok session, w'))
    {k : Nat} (made : k < session.invocations.length) {a : Attempt}
    (answer : backend (session.invocations.take (k + 1)) = .ok a) :
    ∃ t : Turn, t.attempt = a ∧ t.Takes s.request session k ∧ Timed a t.transition := by
  rw [CheckerSettings.verifyWith_host] at ends
  split at ends
  case h_2 => cases ends
  case h_1 =>
    cases ends
    obtain ⟨t, rfl, h⟩ := Request.climb_takes rfl (Nat.zero_le k) made answer
    exact ⟨t, rfl, h, h.timed⟩

-- A checker that is stopped each time after it has given its verdict.
def belated : Attempt :=
  ⟨none, "VERIFICATION SUCCESSFUL\n", true, .ofMilliseconds 10⟩

theorem belated_climbed :
    ∃ t₁ t₂,
      Climbed CheckerSettings.standard.request (fun _ => .ok belated) []
        (.start (.ofFlags { Flags.none with overflow := true })) [t₁, t₂] t₂ ∧
      t₁.attempt = belated ∧ t₁.ladder.stage = .initial ∧ t₂.attempt = belated ∧ t₂.ladder.stage = .degraded := by
  refine ⟨_, _, .next rfl (.degrade ?seen ?full ?left) (.finish rfl ?ends), rfl, rfl, rfl, rfl⟩
  all_goals decide +kernel

theorem belated_timed :
    ∃ session,
      (CheckerSettings.standard.verifyWith (Workspace.host idle) (pure fun _ => .ok belated)
        "int main() { return 0; }" (.ofFlags { Flags.none with overflow := true })).run .bare =
      (.ok session, .single "int main() { return 0; }") ∧
      0 < session.invocations.length ∧
      ∃ t : Turn, t.attempt = belated ∧ t.Takes CheckerSettings.standard.request session 0 ∧
        Timed belated t.transition := by
  obtain ⟨t₁, t₂, climbed, _⟩ := belated_climbed
  have run := climbed.climb_eq []
  have ends := CheckerSettings.standard.verifyWith_bare rfl (fun _ => .ok belated)
    "int main() { return 0; }" (.ofFlags { Flags.none with overflow := true })
  have made : 0 < (CheckerSettings.standard.request.run (fun _ => .ok belated)
      (.ofFlags { Flags.none with overflow := true })).invocations.length := by
    rw [Request.run, run]
    exact Nat.zero_lt_succ _
  exact ⟨_, ends, made, verifyWith_timed ends made rfl⟩

-- The success it tells of twice comes out as a request that ran out of time.
theorem belated_timedOut :
    ∃ session o,
      (CheckerSettings.standard.verifyWith (Workspace.host idle) (pure fun _ => .ok belated)
        "int main() { return 0; }" (.ofFlags { Flags.none with overflow := true })).run .bare =
      (.ok session, .single "int main() { return 0; }") ∧
      session.result = .ok o ∧ Occurs successMarker.toList belated.output.toList ∧
      o.attempts.map (·.stage) = [.initial, .degraded] ∧
      o.attempts.map (·.classification) = [.timedOut, .timedOut] ∧ o.classification = .timedOut := by
  obtain ⟨t₁, t₂, climbed, ha₁, hs₁, ha₂, hs₂⟩ := belated_climbed
  have ends := CheckerSettings.standard.verifyWith_bare rfl (fun _ => .ok belated)
    "int main() { return 0; }" (.ofFlags { Flags.none with overflow := true })
  have hm : Occurs successMarker.toList belated.output.toList := marks_iff.mp (by decide +kernel)
  have hc : belated.classify = .timedOut := by decide +kernel
  refine ⟨_, _, ends, congrArg Session.result (climbed.climb_eq []), hm, ?stages, ?each, ?whole⟩
  case stages  => simp [Request.outcome, Turn.record, Request.record, hs₁, hs₂]
  case each    => simp [Request.outcome, Turn.record, Request.record, ha₁, ha₂, hc]
  case whole   => simp [Request.outcome, ha₂, hc]

end PyVerify
