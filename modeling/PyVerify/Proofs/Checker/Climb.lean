import Mathlib.Order.Defs.Unbundled
import PyVerify.Checker.Verification

namespace PyVerify

namespace Ladder

-- The ways to go on after an attempt: what allows each of them, and what it changes.
inductive Next (l : Ladder) (observed : Classification) (output : String) (last : Invocation) :
    Transition → Ladder → Prop
  | repair (seen : observed = .optionError) (names : rejected? output last = some option)
    (left : 0 < l.repairs) :
    Next l observed output last (.repair option)
      { l with repairs := l.repairs - 1, removed := l.removed ++ [option] }
  | escalate (seen : observed = .unwindingIncomplete) (first : l.stage = .initial)
    (left : 0 < l.escalations) :
    Next l observed output last .escalate { l with
      escalations := l.escalations - 1
      stage := .escalated
      configuration := l.configuration.escalated }
  | degrade (seen : observed = .timedOut) (full : l.stage ≠ .degraded) (left : 0 < l.degradations) :
    Next l observed output last .degrade { l with
      degradations := l.degradations - 1
      stage := .degraded
      configuration := l.configuration.degraded }

variable {l l' : Ladder} {observed : Classification} {output : String} {last : Invocation}
variable {t : Transition}

theorem Next.ending?_eq_none (n : l.Next observed output last t l') : t.ending? = none := by
  cases n <;> rfl

theorem Next.advance_eq (n : l.Next observed output last t l') :
    l.advance observed output last = (t, l') := by
  cases n <;> simp [advance, *]

theorem Next.budget_lt (n : l.Next observed output last t l') : l'.budget < l.budget := by
  have h := @budget_advance l observed output last
  simp only [n.advance_eq] at h
  exact h n.ending?_eq_none

-- After an attempt, a request goes on or it ends with what the attempt says.
theorem advance_cases (l : Ladder) (observed : Classification) (output : String) (last : Invocation) :
    (∃ t l', l.Next observed output last t l') ∨
      l.advance observed output last = (.finish observed, l) := by
  unfold advance
  split
  case h_1 =>
    split
    case h_1 ho =>
      split
      case isTrue hr => exact .inl ⟨_, _, .repair rfl ho hr⟩
      case isFalse   => exact .inr rfl
    case h_2 => exact .inr rfl
  case h_2 =>
    split
    case isTrue hr => exact .inl ⟨_, _, .escalate rfl hr.left hr.right⟩
    case isFalse   => exact .inr rfl
  case h_3 =>
    split
    case isTrue hr => exact .inl ⟨_, _, .degrade rfl hr.left hr.right⟩
    case isFalse   => exact .inr rfl
  all_goals exact .inr rfl

end Ladder

-- One attempt of a request: the ladder that it was made on, and what followed.
structure Turn where
  ladder : Ladder
  attempt : Attempt
  transition : Transition

namespace Turn

def invocation (r : Request) (t : Turn) : Invocation :=
  t.ladder.invocation r.program r.file

def record (r : Request) (t : Turn) : AttemptRecord :=
  Request.record t.ladder.stage (t.invocation r) t.attempt t.transition

end Turn

-- The turns from a ladder on, after some invocations, up to the turn that ends the request.
inductive Climbed (r : Request) (backend : Backend) :
    List Invocation → Ladder → List Turn → Turn → Prop
  | finish
    (answer : backend (made ++ [l.invocation r.program r.file]) = .ok a)
    (ends : l.advance a.classify a.output (l.invocation r.program r.file) = (.finish a.classify, l)) :
    Climbed r backend made l [⟨l, a, .finish a.classify⟩] ⟨l, a, .finish a.classify⟩
  | next
    (answer : backend (made ++ [l.invocation r.program r.file]) = .ok a)
    (next : l.Next a.classify a.output (l.invocation r.program r.file) t l')
    (rest : Climbed r backend (made ++ [l.invocation r.program r.file]) l' turns last) :
    Climbed r backend made l (⟨l, a, t⟩ :: turns) last

namespace Request

variable {r : Request} {backend : Backend} {made : List Invocation} {l l' : Ladder} {a : Attempt}
variable {t : Transition} {e : BackendError} {o : Outcome} (attempts : List AttemptRecord)

theorem climb_error (h : backend (made ++ [l.invocation r.program r.file]) = .error e) :
    r.climb backend made attempts l = ⟨made ++ [l.invocation r.program r.file], .error e⟩ := by
  rw [climb, h]

theorem climb_finish (h : backend (made ++ [l.invocation r.program r.file]) = .ok a)
    (he : l.advance a.classify a.output (l.invocation r.program r.file) = (.finish a.classify, l)) :
    r.climb backend made attempts l =
      ⟨made ++ [l.invocation r.program r.file],
        .ok (r.outcome (l.invocation r.program r.file) a a.classify
          (attempts ++ [Turn.record r ⟨l, a, .finish a.classify⟩]))⟩ := by
  rw [climb]
  simp only [h]
  split
  case h_1 hc => simp_all [Transition.ending?, Turn.record, Turn.invocation]
  case h_2 hc => simp [he, Transition.ending?] at hc

theorem climb_next (h : backend (made ++ [l.invocation r.program r.file]) = .ok a)
    (n : l.Next a.classify a.output (l.invocation r.program r.file) t l') :
    r.climb backend made attempts l =
      r.climb backend (made ++ [l.invocation r.program r.file])
        (attempts ++ [Turn.record r ⟨l, a, t⟩]) l' := by
  rw [climb]
  simp only [h]
  split
  case h_1 hc => simp [n.advance_eq, n.ending?_eq_none] at hc
  case h_2 hc => simp [n.advance_eq, Turn.record, Turn.invocation]

end Request

namespace Climbed

variable {r : Request} {backend : Backend} {made : List Invocation} {l : Ladder}
variable {turns : List Turn} {last : Turn}

theorem getLast? (c : Climbed r backend made l turns last) : turns.getLast? = some last := by
  induction c
  case finish => rfl
  case next hi => simp [List.getLast?_cons, hi]

theorem climb_eq (c : Climbed r backend made l turns last) (attempts : List AttemptRecord) :
    r.climb backend made attempts l =
      ⟨made ++ turns.map (·.invocation r),
        .ok (r.outcome (last.invocation r) last.attempt last.attempt.classify
          (attempts ++ turns.map (·.record r)))⟩ := by
  induction c generalizing attempts
  case finish answer ends => exact Request.climb_finish attempts answer ends
  case next answer n _ hi => simp [Request.climb_next attempts answer n, hi, Turn.invocation]

-- Whatever the backend answers, a request comes to an end, be it that the backend fails.
theorem exists_or_error (r : Request) (backend : Backend) (made : List Invocation) (l : Ladder) :
    (∃ turns last, Climbed r backend made l turns last) ∨
      ∃ later e, backend (made ++ later) = .error e ∧
        ∀ attempts, (r.climb backend made attempts l).result = .error e := by
  cases h : backend (made ++ [l.invocation r.program r.file])
  case error e => exact .inr ⟨_, e, h, fun attempts => by rw [Request.climb_error attempts h]⟩
  case ok a =>
    obtain ⟨t, l', n⟩ | he := l.advance_cases a.classify a.output (l.invocation r.program r.file)
    · have := n.budget_lt
      obtain ⟨turns, last, c⟩ | ⟨later, e, hb, he⟩ := exists_or_error r backend _ l'
      · exact .inl ⟨_, _, .next h n c⟩
      · refine .inr ⟨_ :: later, e, by simpa using hb, fun attempts => ?_⟩
        rw [Request.climb_next attempts h n, he]
    · exact .inl ⟨_, _, .finish h he⟩
termination_by l.budget

theorem exists_of_result {attempts : List AttemptRecord} {o : Outcome}
    (h : (r.climb backend made attempts l).result = .ok o) :
    ∃ turns last, Climbed r backend made l turns last := by
  refine (exists_or_error r backend made l).resolve_right ?_
  rintro ⟨_, e, _, he⟩
  simp [he attempts] at h

theorem exists_of_forall_ok (r : Request) (made : List Invocation) (l : Ladder)
    (h : ∀ made, ∃ a, backend made = .ok a) : ∃ turns last, Climbed r backend made l turns last := by
  refine (exists_or_error r backend made l).resolve_right ?_
  rintro ⟨later, e, he, _⟩
  obtain ⟨a, ha⟩ := h (made ++ later)
  simp [ha] at he

theorem length_le_budget (c : Climbed r backend made l turns last) :
    turns.length ≤ l.budget + 1 := by
  induction c
  case finish => simp
  case next n _ hi =>
    have := n.budget_lt
    simp only [List.length_cons]
    omega

-- The attempt of a turn is what the backend has answered to the invocations up to this turn.
theorem answer (c : Climbed r backend made l turns last) (k : Nat) (h : k < turns.length) :
    backend (made ++ (turns.take (k + 1)).map (·.invocation r)) = .ok turns[k].attempt := by
  induction c generalizing k
  case finish answer _ =>
    have : k = 0 := by simpa using h
    subst this
    exact answer
  case next answer _ _ hi =>
    cases k
    case zero   => exact answer
    case succ k => simpa [Turn.invocation] using hi k (by simpa using h)

theorem answer_last (c : Climbed r backend made l turns last) :
    backend (made ++ turns.map (·.invocation r)) = .ok last.attempt := by
  induction c
  case finish answer _  => exact answer
  case next hi          => simpa [Turn.invocation] using hi

-- What holds of a ladder and is kept by every way to go on holds of the ladders of all turns.
theorem forall_ladder {P : Ladder → Prop} (c : Climbed r backend made l turns last) (h : P l)
    (step : ∀ {l observed output last t l'}, Ladder.Next l observed output last t l' → P l → P l') :
    ∀ t ∈ turns, P t.ladder := by
  induction c
  case finish => simpa using h
  case next n _ hi => exact List.forall_mem_cons.mpr ⟨h, hi (step n h)⟩

-- A transitive relation that every way to go on follows orders the ladders of all turns.
theorem pairwise_ladder {R : Ladder → Ladder → Prop} [IsTrans Ladder R]
    (c : Climbed r backend made l turns last)
    (step : ∀ {l observed output last t l'}, Ladder.Next l observed output last t l' → R l l') :
    turns.Pairwise fun t u => R t.ladder u.ladder := by
  induction c
  case finish => exact List.pairwise_singleton ..
  case next n c hi =>
    refine .cons (fun u hu => ?_) hi
    exact c.forall_ladder (step n) (fun n h => trans_of R h (step n)) u hu

end Climbed

variable {run : List String → Duration → Run} {w w' : Workspace} {text : String}

theorem Workspace.save_host (directory file : String) :
    ((host run).save directory file text).run w =
      match w.save directory file text with
      | .ok w'    => (.ok (), w')
      | .error e  => (.error e, w) := by
  simp only [host, StateT.run_bind, StateT.run_get, pure_bind]
  cases w.save directory file text <;> rfl

namespace CheckerSettings

-- The request that is made for a file once it has been written.
def request (s : CheckerSettings) : Request where
  program     := s.binary
  file        := Path.join s.directory fileName
  outputLimit := s.outputLimit

variable {s : CheckerSettings} {backend : Backend} {c : Configuration} {session : Session}

theorem verifyWith_host :
    (s.verifyWith (Workspace.host run) (pure backend) text c).run w =
      match w.save s.directory s.request.file text with
      | .ok w'    => (.ok (s.request.run backend c), w')
      | .error e  => (.error e, w) := by
  simp only [verifyWith, StateT.run_bind, Workspace.save_host]
  simp only [request]
  cases w.save s.directory (Path.join s.directory fileName) text <;> rfl

theorem verifyWith_of_saved (saved : w.save s.directory s.request.file text = .ok w') :
    (s.verifyWith (Workspace.host run) (pure backend) text c).run w =
      (.ok (s.request.run backend c), w') := by
  rw [verifyWith_host, saved]

-- A session with an outcome has climbed a ladder to its end.
theorem exists_climbed {o : Outcome}
    (ends : (s.verifyWith (Workspace.host run) (pure backend) text c).run w = (.ok session, w'))
    (result : session.result = .ok o) :
    ∃ turns last, Climbed s.request backend [] (.start c) turns last ∧
      session.invocations = turns.map (·.invocation s.request) ∧
      o = s.request.outcome (last.invocation s.request) last.attempt last.attempt.classify
        (turns.map (·.record s.request)) := by
  rw [verifyWith_host] at ends
  split at ends
  case h_2 => cases ends
  case h_1 =>
    cases ends
    obtain ⟨turns, last, h⟩ := Climbed.exists_of_result result
    rw [Request.run, h.climb_eq] at result ⊢
    cases result
    exact ⟨turns, last, h, rfl, rfl⟩

end CheckerSettings

-- Programs that do nothing.
def idle : List String → Duration → Run := fun _ _ => ⟨some 0, "", "", false, .ofSeconds 0⟩

-- A place with no files, and what it is with the checked file in it.
def Workspace.bare : Workspace :=
  ⟨["home"], []⟩

def Workspace.single (text : String) : Workspace :=
  ⟨["home"], [(["home", CheckerSettings.fileName], .file text)]⟩

theorem Workspace.save_bare (text : String) :
    bare.save CheckerSettings.standard.directory CheckerSettings.standard.request.file text =
      .ok (single text) := rfl

theorem CheckerSettings.verifyWith_bare {s : CheckerSettings} (h : s.directory = standard.directory)
    (backend : Backend) (text : String) (c : Configuration) :
    (s.verifyWith (Workspace.host idle) (pure backend) text c).run .bare =
      (.ok (s.request.run backend c), .single text) :=
  verifyWith_of_saved <| by simpa [request, h] using Workspace.save_bare text

end PyVerify
