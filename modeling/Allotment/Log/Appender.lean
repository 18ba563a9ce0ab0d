import Allotment.Log.Outputs

/-! Opening the file that a log is written to. -/

namespace Allotment.Log

/-- Why a log is refused. -/
inductive LogError
  /-- The path has no directory that the file is in. -/
  | noFolder (path : String)
  /-- The path does not end with the name of a file. -/
  | noFileName (path : String)
  /-- There is a log for everything already. -/
  | alreadySet
  deriving DecidableEq, Repr

namespace LogError

def message : LogError → String
  | .noFolder path =>
    s!"Can't access current folder {path}. It might not exist, or don't have required permissions."
  | .noFileName path =>
    s!"Can't access file name {path}. It might not exist, or don't have required permissions."
  | .alreadySet => "a global default trace dispatcher has already been set"

end LogError

/-- How setting a log up ends where it does not succeed. -/
inductive Failure
  /-- An error is returned. -/
  | refused (error : LogError)
  /-- The file, or a directory on the way to it, cannot be made. No error is returned: the attempt panics, and the
      program goes on only where a caller of it catches the panic. -/
  | panicked
  deriving DecidableEq, Repr

/-- The message of the panic where a file cannot be opened. -/
def Failure.panicMessage : String := "initializing rolling file appender failed"

variable {World File : Type} [Outputs World File]

/-- Opens the file of a written path to append to it. Only the path itself can be refused; an attempt to open a file
    that cannot be opened panics. -/
def openLog (world : World) (text : String) : World × Except Failure (Sink File) :=
  let path := Path.ofText text
  match path.parent?, path.fileName? with
  | none, _ => (world, .error (.refused (.noFolder text)))
  | some _, none => (world, .error (.refused (.noFileName text)))
  | some parent, some name =>
    match Outputs.openFile world parent name with
    | (world, some sink) => (world, .ok sink)
    | (world, none) => (world, .error .panicked)

end Allotment.Log
