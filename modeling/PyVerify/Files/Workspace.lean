import PyVerify.Files.Path

/-!
# Workspaces

A workspace is a tree of files as a value: the directory that relative paths start from, and the
files and directories below the root. Paths are followed name by name, so each name on the way has
to be a directory.
-/

namespace PyVerify

/-- Why a file operation failed. -/
inductive FileError where
  | notFound
  | exists
  | notDirectory
  | isDirectory
deriving DecidableEq, Repr

def FileError.message : FileError → String
  | notFound => "No such file or directory (os error 2)"
  | .exists => "File exists (os error 17)"
  | notDirectory => "Not a directory (os error 20)"
  | isDirectory => "Is a directory (os error 21)"

inductive Entry where
  | file (text : String)
  /-- A file that can be run. -/
  | program
  | directory
deriving DecidableEq, Repr

/-- The names on the way from the root. -/
abbrev Place := List String

structure Workspace where
  /-- Where relative paths start. -/
  current : Place
  entries : List (Place × Entry)
deriving Repr

namespace Workspace

/-- What stands at a place; the directories on the way to the current one always exist. -/
def entry? (w : Workspace) (place : Place) : Option Entry :=
  if place.isPrefixOf w.current then some .directory else w.entries.lookup place

def insert (w : Workspace) (place : Place) (entry : Entry) : Workspace :=
  { w with entries := (place, entry) :: w.entries.filter fun (p, _) => p ≠ place }

/-- The place behind one more name. -/
def step (place : Place) (name : String) : Place :=
  if name = "" ∨ name = "." then place
  else if name = ".." then place.dropLast
  else place ++ [name]

def start (w : Workspace) (path : String) : Place :=
  if Path.isAbsolute path then [] else w.current

/-- Follows names from a place; all but the last have to lead to directories. -/
def walk (w : Workspace) (place : Place) : List String → Except FileError Place
  | [] => .ok place
  | name :: rest =>
    match w.entry? place with
    | some .directory => w.walk (step place name) rest
    | some _ => .error .notDirectory
    | none => .error .notFound

def locate (w : Workspace) (path : String) : Except FileError Place :=
  w.walk (w.start path) (Path.names path)

/-- What a path leads to. -/
def find? (w : Workspace) (path : String) : Except FileError Entry :=
  match w.locate path with
  | .ok place =>
    match w.entry? place with
    | some e => .ok e
    | none => .error .notFound
  | .error e => .error e

def isFile (w : Workspace) (path : String) : Bool :=
  match w.find? path with
  | .ok (.file _) | .ok .program => true
  | _ => false

def read? (w : Workspace) (path : String) : Option String :=
  match w.find? path with
  | .ok (.file text) => some text
  | _ => none

/-- Makes the directories that names lead through. -/
def makeAll (w : Workspace) (place : Place) : List String → Except FileError Workspace
  | [] => .ok w
  | name :: rest =>
    let next := step place name
    match w.entry? next with
    | some .directory => w.makeAll next rest
    | some _ => .error (if rest.all (· = "") then .exists else .notDirectory)
    | none => (w.insert next .directory).makeAll next rest

def makeDirectory (w : Workspace) (path : String) : Except FileError Workspace :=
  w.makeAll (w.start path) (Path.names path)

def write (w : Workspace) (path text : String) : Except FileError Workspace :=
  match w.locate path with
  | .ok place =>
    if w.entry? place = some .directory then .error .isDirectory
    else .ok (w.insert place (.file text))
  | .error e => .error e

/-- Writes a file after making the directory for it. -/
def save (w : Workspace) (directory path text : String) : Except FileError Workspace :=
  match w.makeDirectory directory with
  | .ok w => w.write path text
  | .error e => .error e

end Workspace
end PyVerify
