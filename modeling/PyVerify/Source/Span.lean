/-!
# Source spans

A span is a stretch of a source text, counted in UTF-8 bytes. `Span.join` covers two spans; spans
are compared through the positions `start` and `stop`.
-/

namespace PyVerify

/-- A stretch of source text: the byte it starts at and its length in bytes. -/
@[ext]
structure Span where
  start : Nat
  length : Nat
deriving DecidableEq, Repr, Inhabited

namespace Span

/-- The position just past the last byte. -/
def stop (s : Span) : Nat :=
  s.start + s.length

/-- The span from one position to a later one. -/
def between (start stop : Nat) : Span :=
  ⟨start, stop - start⟩

/-- The empty span at a position. -/
def point (position : Nat) : Span :=
  ⟨position, 0⟩

/-- The smallest span that covers both. -/
def join (a b : Span) : Span :=
  between (min a.start b.start) (max a.stop b.stop)

/-- Every byte of `a` belongs to `b`, and an empty `a` does not stick out either. -/
def Within (a b : Span) : Prop :=
  b.start ≤ a.start ∧ a.stop ≤ b.stop

instance (a b : Span) : Decidable (a.Within b) :=
  inferInstanceAs (Decidable (_ ∧ _))

variable {a b c : Span}

@[simp]
theorem start_join : (a.join b).start = min a.start b.start :=
  rfl

@[simp]
theorem stop_join : (a.join b).stop = max a.stop b.stop := by
  simp only [join, between, stop]
  omega

theorem Within.refl (a : Span) : a.Within a :=
  ⟨Nat.le_refl _, Nat.le_refl _⟩

theorem Within.trans (h₁ : a.Within b) (h₂ : b.Within c) : a.Within c :=
  ⟨Nat.le_trans h₂.1 h₁.1, Nat.le_trans h₁.2 h₂.2⟩

theorem within_join_left : a.Within (a.join b) := by
  simp only [Within, start_join, stop_join]
  omega

theorem within_join_right : b.Within (a.join b) := by
  simp only [Within, start_join, stop_join]
  omega

theorem join_within (h₁ : a.Within c) (h₂ : b.Within c) : (a.join b).Within c := by
  simp only [Within, start_join, stop_join] at *
  omega

end Span
end PyVerify
