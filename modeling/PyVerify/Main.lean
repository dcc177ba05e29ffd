import PyVerify.Command.Run

/-!
# The command line

Runs the command that the words name on the files of this machine. No program is ever started here,
so each counts as not found.
-/

namespace PyVerify

/-- What a file operation gives, unless it fails. -/
def attempt? {α : Type} (action : IO α) : IO (Option α) := do
  try
    return some (← action)
  catch _ =>
    return none

def machine : Host IO where
  current := do return (← IO.currentDir).toString
  isFile path := do
    let kind ← attempt? do return (← ((← IO.currentDir) / path).metadata).type
    match kind with
    | some .file => return true
    | _ => return false
  read? path := attempt? (IO.FS.readFile path)
  save directory path text := do
    if (← attempt? (IO.FS.createDirAll directory)).isNone then return .error .exists
    if (← attempt? (IO.FS.writeFile path text)).isNone then return .error .isDirectory
    return .ok ()
  programs := return fun _ _ _ => .error .notFound

end PyVerify

def main (words : List String) : IO UInt32 := do
  let checker ← IO.getEnv "ESBMC_PATH"
  let result ← PyVerify.runWords PyVerify.machine checker words
  IO.print result.stdout
  IO.eprint result.stderr
  return result.exitCode.toUInt32
