import Allotment.Event

/-! Where events are logged, and how many of them. -/

namespace Allotment.Log

/-- A stream of lines that a reader sees at once. -/
inductive Display
  | stdout | stderr
  deriving DecidableEq, Repr

namespace Display

def name : Display → String
  | .stdout => "Stdout"
  | .stderr => "Stderr"

end Display

/-- Where events are written: nowhere, to a display, to a file, or to both. -/
inductive Writer
  | nowhere
  | display (display : Display)
  | file (path : String)
  | both (display : Display) (path : String)
  deriving DecidableEq, Repr

namespace Writer

def name : Writer → String
  | .nowhere => "None"
  | .display _ => "Display"
  | .file _ => "File"
  | .both .. => "DisplayAndFile"

/-- The display that is written to. -/
def display? : Writer → Option Display
  | .display shown | .both shown _ => some shown
  | .nowhere | .file _ => none

/-- The path of the file that is written to. -/
def path? : Writer → Option String
  | .file written | .both _ written => some written
  | .nowhere | .display _ => none

end Writer

/-- A writer, and the level up to which it gets events. -/
structure Config where
  writer : Writer
  level : Level
  deriving DecidableEq, Repr

namespace Config

/-- The file that is written to if none is named. -/
def usualFile : String := "ratio_log_file_debug.log"

/-- Writes to a display what is worth knowing. -/
def toDisplay (display : Display) : Config := ⟨.display display, .info⟩

/-- Writes to a file what helps to find faults. -/
def toFile (path : Option String) : Config := ⟨.file (path.getD usualFile), .debug⟩

/-- Writes to a file and a display what helps to find faults. -/
def toBoth (path : Option String) (display : Display) : Config := ⟨.both display (path.getD usualFile), .debug⟩

/-- Writes to standard error, so that what is drawn on standard output stays clean. -/
def standard : Config := toDisplay .stderr

/-- The same writer at another level. -/
def withLevel (config : Config) (level : Level) : Config := { config with level }

end Config
end Allotment.Log
