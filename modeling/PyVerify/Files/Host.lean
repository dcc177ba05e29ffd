import PyVerify.Files.Workspace
import PyVerify.Process.Run

/-!
# Hosts

A host is where a command runs: it reads and writes files and knows which programs can be started.
`Workspace.host` is the host that keeps its files in a value.
-/

namespace PyVerify

structure Host (m : Type → Type) where
  /-- The absolute path of the current directory. -/
  current : m String
  isFile : String → m Bool
  read? : String → m (Option String)
  /-- Makes a directory and writes a file: the directory, the file's path, its text. -/
  save : String → String → String → m (Except FileError Unit)
  /-- What running a program does, as the files are now. -/
  programs : m Programs

namespace Workspace

/-- The programs of a workspace, of which only those marked as programs can be started. -/
def programs (w : Workspace) (run : List String → Duration → Run) : Programs := fun name args limit =>
  if !name.toList.contains '/' then .error .notFound
  else match w.find? name with
    | .ok .program => .ok (run args limit)
    | .ok _ => .error .denied
    | .error .notDirectory => .error .notDirectory
    | .error _ => .error .notFound

/-- A host whose programs all do the same. -/
def host (run : List String → Duration → Run) : Host (StateM Workspace) where
  current := do return "/" ++ "/".intercalate (← get).current
  isFile path := do return (← get).isFile path
  read? path := do return (← get).read? path
  save directory path text := do
    match (← get).save directory path text with
    | .ok w => set w; return .ok ()
    | .error e => return .error e
  programs := do return (← get).programs run

end Workspace
end PyVerify
