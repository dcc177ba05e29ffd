import PyVerify.Number.Fixed

/-!
# Durations

A duration is a whole number of nanoseconds, below `2 ^ 64` seconds where it is read from a number.
-/

namespace PyVerify

structure Duration where
  nanoseconds : Nat
deriving DecidableEq, Repr, Inhabited

namespace Duration

def ofMilliseconds (n : Nat) : Duration := ⟨n * 1000000⟩

def ofSeconds (n : Nat) : Duration := ⟨n * 1000000000⟩

instance : Add Duration := ⟨fun a b => ⟨a.nanoseconds + b.nanoseconds⟩⟩

/-- The nearest duration to a positive number of seconds; none from `2 ^ 64` seconds on. -/
def ofBinary64? (seconds : Binary64) : Option Duration :=
  let (num, den) := seconds.toRatio
  if num < UInt64.size * den then some ⟨roundDiv (num * 1000000000) den .toEven⟩ else none

/-- Whole seconds and the rest are rounded one after the other. -/
def seconds (d : Duration) : Binary64 :=
  (Binary64.ofNat (d.nanoseconds / 1000000000)).add
    (.ofRatio (d.nanoseconds % 1000000000) 1000000000)

def milliseconds (d : Duration) : Binary64 :=
  d.seconds.mul (.ofNat 1000)

end Duration
end PyVerify
