import PyVerify.Process.Run
import PyVerify.Text.Search
import PyVerify.Text.Utf8

/-!
# Scripted programs

A scripted program answers by its arguments: the first case whose text occurs in them decides what
it writes and how it ends.
-/

namespace PyVerify

structure Reply where
  stdout : List UInt8
  stderr : List UInt8
  exitCode : Int
  /-- How long the program goes on after it has written all. -/
  delay : Duration
  /-- The program is stopped by a signal. -/
  isKilled : Bool
deriving Repr

def Reply.silent : Reply := ⟨[], [], 0, ⟨0⟩, false⟩

/-- A program that goes on to its time limit is stopped there; exit codes have eight bits. -/
def Reply.run (r : Reply) (limit : Duration) : Run :=
  let timedOut := 0 < r.delay.nanoseconds ∧ limit.nanoseconds ≤ r.delay.nanoseconds
  { exitCode := if timedOut ∨ r.isKilled then none else some (r.exitCode % 256)
    stdout := Text.decode r.stdout
    stderr := Text.decode r.stderr
    timedOut
    duration := if timedOut then limit else r.delay }

structure Script where
  cases : List (String × Reply)
  otherwise : Reply
deriving Repr

namespace Script

/-- Writes nothing and ends well. -/
def silent : Script := ⟨[], .silent⟩

def reply (s : Script) (arguments : List String) : Reply :=
  let line := (" ".intercalate arguments).toList
  match s.cases.find? fun (text, _) => Text.contains text.toList line with
  | some (_, r) => r
  | none => s.otherwise

def run (s : Script) (arguments : List String) (limit : Duration) : Run :=
  (s.reply arguments).run limit

end Script
end PyVerify
