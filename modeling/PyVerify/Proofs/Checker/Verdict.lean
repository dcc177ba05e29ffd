import Mathlib.Data.List.TakeWhile
import PyVerify.Proofs.Checker.Excerpt
import PyVerify.Proofs.Checker.Climb

namespace PyVerify

open Text

-- A name in quotes that is complained about comes first in the text, or somewhere in it.
def ComplainsAt (text : List Char) : Prop :=
  ∃ name after, text = complaint.toList ++ name ++ '\'' :: after ∧ name ≠ [] ∧ '\'' ∉ name

def Complains (text : List Char) : Prop :=
  ∃ before after, text = before ++ after ∧ ComplainsAt after

variable {text name after : List Char} {c : Char} {a : Attempt}

theorem quotedName?_eq_some_iff :
    quotedName? text = some name ↔ name ≠ [] ∧ '\'' ∉ name ∧ ∃ after, text = name ++ '\'' :: after := by
  constructor
  case mp =>
    intro h
    unfold quotedName? at h
    split at h
    case h_1 c cs after ht hd =>
      cases h
      refine ⟨List.cons_ne_nil c cs, fun hm => ?_, after, ?_⟩
      · exact absurd (List.mem_takeWhile_imp (ht ▸ hm)) (by decide)
      · rw [←ht, ←hd, List.takeWhile_append_dropWhile]
    case h_2 => cases h
  case mpr =>
    rintro ⟨hne, hn, after, rfl⟩
    have hp : ∀ c ∈ name, decide (c ≠ '\'') := by grind
    obtain ⟨c, cs, rfl⟩ := List.exists_cons_of_ne_nil hne
    simp only [quotedName?, List.takeWhile_append_of_pos hp, List.dropWhile_append_of_pos hp]
    simp

theorem complainsAt_iff :
    ComplainsAt text ↔
      complaint.toList.isPrefixOf text ∧ (quotedName? (text.drop complaint.length)).isSome := by
  simp only [Option.isSome_iff_exists, quotedName?_eq_some_iff, List.isPrefixOf_iff_prefix]
  constructor
  case mp =>
    rintro ⟨name, after, rfl, hne, hn⟩
    exact ⟨⟨_, (List.append_assoc ..).symm⟩, name, hne, hn, after, by simp [←String.length_toList]⟩
  case mpr =>
    rintro ⟨⟨rest, rfl⟩, name, hne, hn, after, h⟩
    exact ⟨name, after, by simpa [←String.length_toList] using h, hne, hn⟩

theorem complains_cons_iff : Complains (c :: text) ↔ ComplainsAt (c :: text) ∨ Complains text := by
  constructor
  case mp =>
    rintro ⟨before, after, h, ha⟩
    cases before
    case nil  => exact .inl <| by simpa [h] using ha
    case cons => exact .inr ⟨_, after, (List.cons.inj h).right, ha⟩
  case mpr =>
    rintro (h | ⟨before, after, rfl, ha⟩)
    · exact ⟨[], _, rfl, h⟩
    · exact ⟨c :: before, after, rfl, ha⟩

theorem not_complains_nil : ¬Complains [] := by
  rintro ⟨before, after, h, name, rest, rfl, _⟩
  simp at h

theorem complainedName?_isSome_iff : (complainedName? text).isSome ↔ Complains text := by
  induction text
  case nil => simp [complainedName?, not_complains_nil]
  case cons c text hi =>
    rw [complains_cons_iff, complainsAt_iff, ←hi, complainedName?]
    grind

theorem unrecognisedOption?_isSome_iff {output : String} :
    (unrecognisedOption? output).isSome ↔ Complains output.toList := by
  simp [unrecognisedOption?, complainedName?_isSome_iff]

namespace Attempt

theorem classify_eq_success_iff :
    a.classify = .success ↔
      a.exitCode = some 0 ∧ marks successMarker a.output ∧ ¬marks failureMarker a.output ∧
        ¬marks unwindingMarker a.output ∧ ¬Complains a.output.toList := by
  rw [←unrecognisedOption?_isSome_iff]
  unfold classify
  grind

theorem classify_eq_violationFound_iff :
    a.classify = .violationFound ↔
      marks failureMarker a.output ∧ ¬marks unwindingMarker a.output ∧ ¬Complains a.output.toList := by
  rw [←unrecognisedOption?_isSome_iff]
  unfold classify
  grind

end Attempt

-- What an outcome says on the last attempt is what the output of this attempt says, also when the output
-- is cut down.
structure Justified (a : Attempt) (o : Outcome) : Prop where
  success   : o.success ↔
                a.exitCode = some 0 ∧ Occurs successMarker.toList a.output.toList ∧
                ¬Occurs failureMarker.toList a.output.toList ∧
                ¬Occurs unwindingMarker.toList a.output.toList ∧ ¬Complains a.output.toList
  visible   : o.success →
                Occurs successMarker.toList o.output.toList ∧ ¬Occurs failureMarker.toList o.output.toList
  violation : o.classification = .violationFound → Occurs failureMarker.toList o.output.toList

theorem Request.outcome_justified (r : Request) (i : Invocation) (a : Attempt)
    (attempts : List AttemptRecord) : Justified a (r.outcome i a a.classify attempts) := by
  have hs : (r.outcome i a a.classify attempts).success ↔ a.classify = .success := by
    simp [Outcome.success, outcome]
  have ht := marks_truncate_iff (m := successMarker) (by decide) a.output r.outputLimit
  have hf := marks_truncate_iff (m := failureMarker) (by decide) a.output r.outputLimit
  simp only [marks_iff] at ht hf
  constructor
  case success => simp only [hs, Attempt.classify_eq_success_iff, marks_iff]
  case visible =>
    rw [hs, Attempt.classify_eq_success_iff, marks_iff, marks_iff]
    exact fun ⟨_, hm, hn, _⟩ => ⟨ht.mpr hm, fun h => hn <| hf.mp h⟩
  case violation =>
    intro h
    exact hf.mpr <| marks_iff.mp (Attempt.classify_eq_violationFound_iff.mp h).left

-- Whatever the checker answers, and however short the output is cut: a request that ends with a verdict
-- has this verdict from the answer to its last invocation, and shows it.
theorem verifyWith_justified {s : CheckerSettings} {run : List String → Duration → Run}
    {backend : Backend} {w w' : Workspace} {text : String} {c : Configuration} {session : Session}
    {o : Outcome}
    (ends : (s.verifyWith (Workspace.host run) (pure backend) text c).run w = (.ok session, w'))
    (result : session.result = .ok o) :
    ∃ a, backend session.invocations = .ok a ∧ Justified a o := by
  obtain ⟨turns, last, h, hi, rfl⟩ := CheckerSettings.exists_climbed ends result
  exact ⟨last.attempt, hi ▸ h.answer_last, s.request.outcome_justified ..⟩

-- A verdict within a line of output of which nothing is to be shown.
def buried : Attempt :=
  ⟨some 0, "Parsing\nresult: VERIFICATION SUCCESSFUL (1.2s)\ndone\n", false, .ofMilliseconds 5⟩

def CheckerSettings.terse : CheckerSettings :=
  { standard with outputLimit := 0 }

theorem buried_justified :
    ∃ session o,
      (CheckerSettings.terse.verifyWith (Workspace.host idle) (pure fun _ => .ok buried)
        "int main() { return 0; }" (.ofFlags .none)).run .bare =
      (.ok session, .single "int main() { return 0; }") ∧
      session.result = .ok o ∧ o.success ∧
      ∃ a, .ok buried = (.ok a : Except BackendError Attempt) ∧ Justified a o := by
  have climbed : Climbed CheckerSettings.terse.request (fun _ => .ok buried) []
      (.start (.ofFlags .none)) _ _ := .finish rfl (by decide +kernel)
  have result := congrArg Session.result (climbed.climb_eq [])
  have ends := CheckerSettings.terse.verifyWith_bare rfl (fun _ => .ok buried)
    "int main() { return 0; }" (.ofFlags .none)
  exact ⟨_, _, ends, result, by decide +kernel, verifyWith_justified ends result⟩

end PyVerify
