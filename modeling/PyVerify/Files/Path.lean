/-!
# Paths

A path is a text of names divided by slashes. The functions here work on the text alone and never
look at a file: `join`, `parent?`, `extension?`, and `absolute`, which drops the names that stay in
place.
-/

namespace PyVerify.Path

def isAbsolute (path : String) : Bool :=
  path.toList.head? == some '/'

/-- The path as seen from a directory; an absolute path is not changed by it. -/
def join (base path : String) : String :=
  if isAbsolute path then path
  else if base.isEmpty || base.toList.getLast? == some '/' then base ++ path
  else base ++ "/" ++ path

/-- The parts of a text between slashes, empty parts included. -/
def divide : List Char → List (List Char)
  | [] => [[]]
  | c :: cs =>
    match c, divide cs with
    | '/', parts => [] :: parts
    | c, part :: parts => (c :: part) :: parts
    | c, [] => [[c]]

/-- The names of a path, empty ones included. -/
def names (path : String) : List String :=
  (divide path.toList).map String.ofList

/-- Drops from the end of a reversed path what adds no name: slashes, and a `.` behind a slash. -/
def trimEnd : List Char → List Char
  | ['/'] => ['/']
  | '/' :: rest => trimEnd rest
  | '.' :: '/' :: rest => trimEnd ('/' :: rest)
  | rest => rest

/-- The path without its last name; none if there is no name. -/
def parent? (path : String) : Option String :=
  match trimEnd path.toList.reverse with
  | [] | ['/'] => none
  | rest => some (String.ofList (trimEnd (rest.dropWhile (· ≠ '/'))).reverse)

/-- A path and the ones above it, at most so many; an empty path ends them. -/
def ancestorsUpTo : Nat → String → List String
  | 0, _ => []
  | n + 1, path =>
    match parent? path with
    | none | some "" => [path]
    | some above => path :: ancestorsUpTo n above

/-- A path and the ones above it, the nearest first. -/
def ancestors (path : String) : List String :=
  ancestorsUpTo (path.length + 1) path

/-- The last name of a path, unless it stands for a place. -/
def fileName? (path : String) : Option String :=
  let name := (trimEnd path.toList.reverse).takeWhile (· ≠ '/')
  if name = [] ∨ name = ['.'] ∨ name = ['.', '.'] then none
  else some (String.ofList name.reverse)

/-- What follows the last point of the last name, unless the name starts with that point. -/
def extension? (path : String) : Option String :=
  match fileName? path with
  | none => none
  | some name =>
    let reversed := name.toList.reverse
    match reversed.dropWhile (· ≠ '.') with
    | [] | ['.'] => none
    | _ => some (String.ofList (reversed.takeWhile (· ≠ '.')).reverse)

/-- The extension is this one, in letters of either case. -/
def hasExtension (path extension : String) : Bool :=
  match extension? path with
  | some e => e.map Char.toLower == extension
  | none => false

/--
The path from the root, as seen from a directory. Two leading slashes and a final one are kept; an
empty path has no absolute form.
-/
def absolute? (directory path : String) : Option String :=
  if path.isEmpty then none
  else
    let start := match path.toList with
      | ['/', '/'] => "//"
      | '/' :: '/' :: c :: _ => if c = '/' then "/" else "//"
      | '/' :: _ => "/"
      | _ => directory
    let full := ((names path).filter fun n => n ≠ "" ∧ n ≠ ".").foldl join start
    some (if path.toList.getLast? == some '/' then join full "" else full)

example : join "<base>" "" = "<base>/" := by decide +kernel

example : parent? "a//b/./" = some "a" := by decide +kernel

example : ancestors "/a/b" = ["/a/b", "/a", "/"] := by decide +kernel

example : extension? "dir/Main.C/" = some "C" := by decide +kernel

example : absolute? "/w" "./a//./../b/" = some "/w/a/../b/" := by decide +kernel

end PyVerify.Path
