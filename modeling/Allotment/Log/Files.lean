import Allotment.Log.Path
import Allotment.Text.Lines

/-! Directories and files, and what is written to them. Nothing is there at first but the working directory and the
    directories above it. -/

namespace Allotment.Log

/-- A directory or file: the names on the way from the root down to it. -/
structure Place where
  names : List String
  deriving DecidableEq, Repr

namespace Place

/-- The directory that all others are in. -/
def root : Place := ⟨[]⟩

/-- What has a given name in a directory. -/
def child (place : Place) (name : String) : Place := ⟨place.names ++ [name]⟩

/-- The directory above. The root is above itself. -/
def up (place : Place) : Place := ⟨place.names.dropLast⟩

/-- A place is a directory, or lies in it or further down. -/
def isWithin (place directory : Place) : Bool := directory.names.isPrefixOf place.names

/-- The path from a directory to a place in it. -/
def pathFrom? (directory place : Place) : Option String :=
  match place.names.drop directory.names.length with
  | [] => none
  | names => if place.isWithin directory then some ("/".intercalate names) else none

end Place

/-- Why a path leads to nothing that can be used. -/
inductive PathFault
  /-- Something on the way is missing. -/
  | missing
  /-- Something is in the way, or the path cannot be the path of anything. -/
  | blocked
  deriving DecidableEq, Repr

/-- The working directory, the directories that have been made, and the files with their lines. -/
structure Files where
  working : Place
  directories : List Place := []
  contents : List (Place × List String) := []
  deriving DecidableEq, Repr

namespace Files

def isDirectory (files : Files) (place : Place) : Bool :=
  files.working.isWithin place || files.directories.contains place

def isFile (files : Files) (place : Place) : Bool := files.contents.any (·.1 == place)

/-- The lines of a file. -/
def linesOf (files : Files) (place : Place) : List String := (files.contents.lookup place).getD []

/-- Adds lines at the end of a file. -/
def write (files : Files) (place : Place) (lines : List String) : Files :=
  { files with contents := files.contents.map fun (other, old) =>
    (other, if other == place then old ++ lines else old) }

/-! ### Paths -/

/-- The longest name of a directory or file, in bytes. -/
def longestName : Nat := 255

/-- Directories and files can have this name. -/
def isUsable (name : String) : Bool := name.utf8ByteSize ≤ longestName

/-- The longest path, in bytes. -/
def longestPath : Nat := 4095

/-- Some directory or file might have this path. -/
def isPossible (path : Path) : Bool :=
  path.size ≤ longestPath && path.all fun
    | ⟨.name name, _⟩ => !name.toList.contains '\x00'
    | _ => true

/-- The directory to which a path leads, step by step. -/
def walk (files : Files) (place : Place) : Path → Except PathFault Place
  | [] => .ok place
  | ⟨.root, _⟩ :: rest => files.walk .root rest
  | ⟨.stay, _⟩ :: rest => files.walk place rest
  | ⟨.up, _⟩ :: rest => files.walk place.up rest
  | ⟨.name name, _⟩ :: rest =>
    let next := place.child name
    if !isUsable name then .error .blocked
    else if files.isDirectory next then files.walk next rest
    else if files.isFile next then .error .blocked
    else .error .missing

/-- The directory that has a given path. -/
def directory (files : Files) (path : Path) : Except PathFault Place :=
  if isPossible path then files.walk files.working path else .error .blocked

/-- A path leads to a directory. -/
def leadsToDirectory (files : Files) (path : Path) : Bool := (files.directory path).isOk

/-- Makes the directory of a given path in a directory that is there. -/
def make (files : Files) (path : Path) : Except PathFault Files := do
  if !isPossible path then .error .blocked
  let above ← files.directory path.dropLast
  match path.getLast? with
  | some ⟨.name name, _⟩ =>
    let place := above.child name
    if !isUsable name || files.isDirectory place || files.isFile place then .error .blocked
    else return { files with directories := files.directories ++ [place] }
  | _ => .error .blocked

/-- Makes the directory of a given path and all that are missing on the way to it. What has been made stays, also if
    something is in the way in the end. -/
def makeAll (files : Files) (path : Path) : Files × Bool :=
  if _ : path = [] then (files, true)
  else
    match files.make path with
    | .ok files => (files, true)
    | .error .blocked => (files, files.leadsToDirectory path)
    | .error .missing =>
      match files.makeAll path.dropLast with
      | (files, false) => (files, false)
      | (files, true) =>
        match files.make path with
        | .ok files => (files, true)
        | .error _ => (files, files.leadsToDirectory path)
termination_by path.length
decreasing_by
  rename_i hne
  have := List.length_pos_iff.mpr hne
  rw [List.length_dropLast]
  omega

/-! ### Opening files -/

/-- Opens a file of a directory to write at its end, and creates it if it is missing. -/
def create (files : Files) (path : Path) (name : String) : Except PathFault (Files × Place) := do
  if !isPossible (path.child name) then .error .blocked
  let place := (← files.directory path).child name
  if !isUsable name || files.isDirectory place then .error .blocked
  else if files.isFile place then return (files, place)
  else return ({ files with contents := files.contents ++ [(place, [])] }, place)

/-- Opens a file, and makes the directories on the way to it if it cannot be opened without. -/
def createWithin (files : Files) (path : Path) (name : String) : Files × Option Place :=
  match files.create path name with
  | .ok (files, place) => (files, some place)
  | .error _ =>
    match files.makeAll path with
    | (files, false) => (files, none)
    | (files, true) =>
      match files.create path name with
      | .ok (files, place) => (files, some place)
      | .error _ => (files, none)

/-- The files in the working directory and below, by their paths, with their lines. -/
def listing (files : Files) : List (String × List String) :=
  files.contents.filterMap fun (place, lines) => (files.working.pathFrom? place).map fun path => (path, lines)

end Files
end Allotment.Log
