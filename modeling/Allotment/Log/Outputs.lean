import Allotment.Log.Config
import Allotment.Log.Files

/-! What logs write to. How a file is found and opened is left to the world that a log is in: two names may lead to one
    file, a name may lead to a display, and any name may lead to nothing that can be opened. -/

namespace Allotment.Log

/-- What lines can be written to: a display, or a file that has been opened. -/
inductive Sink (File : Type)
  | display (display : Display)
  | file (file : File)
  deriving DecidableEq, Repr

/-- What a log needs of the world that it is in. -/
class Outputs (World : Type) (File : outParam Type) where
  /-- Opens the file of a given name in a directory to write at its end, and makes what is missing on the way. There is
      none where that cannot be done. -/
  openFile (world : World) (directory : Path) (name : String) : World × Option (Sink File)
  /-- Writes a line. -/
  append (world : World) (sink : Sink File) (line : String) : World
  /-- The lines that have been written. -/
  linesAt (world : World) (sink : Sink File) : List String
  /-- Lines can be written to a sink. -/
  isOpen (world : World) (sink : Sink File) : Bool

/-- Lines can be written to the displays, and to a file from the time it is opened. Opening a file loses no lines of any
    sink. A line that is written to a sink stands after those that it has, and nowhere else. -/
class LawfulOutputs (World : Type) (File : outParam Type) [Outputs World File] : Prop where
  isOpen_display (world : World) (display : Display) : Outputs.isOpen world (.display display) = true
  isOpen_openFile (world : World) (directory : Path) (name : String) (sink : Sink File) :
    Outputs.isOpen world sink = true → Outputs.isOpen (Outputs.openFile world directory name).1 sink = true
  isOpen_of_openFile (world : World) (directory : Path) (name : String) (sink : Sink File) :
    (Outputs.openFile world directory name).2 = some sink →
      Outputs.isOpen (Outputs.openFile world directory name).1 sink = true
  isOpen_append (world : World) (sink : Sink File) (line : String) (other : Sink File) :
    Outputs.isOpen world other = true → Outputs.isOpen (Outputs.append world sink line) other = true
  linesAt_openFile (world : World) (directory : Path) (name : String) (sink : Sink File) :
    Outputs.linesAt (Outputs.openFile world directory name).1 sink = Outputs.linesAt world sink
  linesAt_append_self (world : World) (sink : Sink File) (line : String) : Outputs.isOpen world sink = true →
    Outputs.linesAt (Outputs.append world sink line) sink = Outputs.linesAt world sink ++ [line]
  linesAt_append_of_ne (world : World) (sink : Sink File) (line : String) (other : Sink File) :
    Outputs.isOpen world sink = true → other ≠ sink →
      Outputs.linesAt (Outputs.append world sink line) other = Outputs.linesAt world other

/-! ### Displays, and files in directories -/

/-- What is on the displays, and the files. -/
structure Workspace where
  stdout : List String := []
  stderr : List String := []
  files : Files
  deriving DecidableEq, Repr

namespace Workspace

def openFile (workspace : Workspace) (directory : Path) (name : String) : Workspace × Option (Sink Place) :=
  match workspace.files.createWithin directory name with
  | (files, place) => ({ workspace with files }, place.map .file)

def append (workspace : Workspace) (sink : Sink Place) (line : String) : Workspace :=
  match sink with
  | .display .stdout => { workspace with stdout := workspace.stdout ++ [line] }
  | .display .stderr => { workspace with stderr := workspace.stderr ++ [line] }
  | .file place => { workspace with files := workspace.files.write place [line] }

def linesAt (workspace : Workspace) : Sink Place → List String
  | .display .stdout => workspace.stdout
  | .display .stderr => workspace.stderr
  | .file place => workspace.files.linesOf place

def isOpen (workspace : Workspace) : Sink Place → Bool
  | .display _ => true
  | .file place => workspace.files.isFile place

instance : Outputs Workspace Place := ⟨openFile, append, linesAt, isOpen⟩

end Workspace
end Allotment.Log
