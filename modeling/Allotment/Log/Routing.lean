import Allotment.Log.Appender
import Allotment.Log.Config

/-! Where the events of a program go. Logs can be installed for a while, the newest in front, and one can be installed
    for good. An event goes to the newest log that is installed for a while, else to the one installed for good, else
    nowhere; that log writes it to each of its sinks if its level lets the event through. -/

namespace Allotment.Log

/-- Where a log writes to once it is set up, and up to which level. -/
structure Outlet (File : Type) where
  level : Level
  sinks : List (Sink File)
  deriving DecidableEq, Repr

/-- The layers of an outlet: its level, and one for each sink. -/
def Outlet.layers {File : Type} (outlet : Outlet File) : Nat := 1 + outlet.sinks.length

/-- The outlet of a log, with the file that has been opened for it: the display comes first. -/
def Config.outlet {File : Type} (config : Config) (file : Option (Sink File)) : Outlet File :=
  ⟨config.level, (config.writer.display?.map .display).toList ++ file.toList⟩

/-- The logs that are installed, and the world that they write to. -/
structure Routing (World File : Type) where
  /-- The log that is installed for good. -/
  lasting : Option (Outlet File) := none
  /-- The logs that are installed for a while, the newest first. -/
  passing : List (Outlet File) := []
  world : World
  deriving DecidableEq, Repr

variable {World File : Type} [Outputs World File]

/-- Sets a log up, which opens its file if it has one. -/
def Config.setUp (config : Config) (world : World) : World × Except Failure (Option (Sink File)) :=
  match config.writer.path? with
  | none => (world, .ok none)
  | some path =>
    match openLog world path with
    | (world, .ok file) => (world, .ok (some file))
    | (world, .error failure) => (world, .error failure)

namespace Routing

/-! ### Installing -/

/-- Installs a log for good; there can be one only. Its file is created in any case. -/
def installLasting (routing : Routing World File) (config : Config) :
    Routing World File × Except Failure (Option (Sink File)) :=
  match config.setUp routing.world with
  | (world, .error failure) => ({ routing with world }, .error failure)
  | (world, .ok file) =>
    if routing.lasting.isSome then ({ routing with world }, .error (.refused .alreadySet))
    else ({ routing with world, lasting := some (config.outlet file) }, .ok file)

/-- Installs a log for a while. -/
def installPassing (routing : Routing World File) (config : Config) :
    Routing World File × Except Failure (Option (Sink File)) :=
  match config.setUp routing.world with
  | (world, .error failure) => ({ routing with world }, .error failure)
  | (world, .ok file) => ({ routing with world, passing := config.outlet file :: routing.passing }, .ok file)

/-- Removes the newest log that is installed for a while, and says whether there was one. -/
def dropPassing (routing : Routing World File) : Routing World File × Bool :=
  ({ routing with passing := routing.passing.tail }, !routing.passing.isEmpty)

/-! ### Writing -/

/-- The log that events go to. -/
def current? (routing : Routing World File) : Option (Outlet File) := routing.passing.head?.or routing.lasting

/-- Writes a line to all sinks of a log. -/
def write (routing : Routing World File) (outlet : Outlet File) (line : String) : Routing World File :=
  { routing with world := outlet.sinks.foldl (fun world sink => Outputs.append world sink line) routing.world }

/-- Sends one event on its way. -/
def emit (routing : Routing World File) (event : Event) : Routing World File :=
  match routing.current? with
  | none => routing
  | some outlet => if outlet.level.passes event then routing.write outlet event.line else routing

/-- Sends events on their way, in order. -/
def emitAll (routing : Routing World File) (events : List Event) : Routing World File := events.foldl emit routing

/-! ### Runs -/

/-- What happens in the course of a program. -/
inductive Step
  | installLasting (config : Config)
  | installPassing (config : Config)
  | dropPassing
  | emit (events : List Event)
  deriving DecidableEq, Repr

/-- What a step tells the program. -/
inductive Answer (File : Type)
  /-- The log is installed, with the file that has been opened for it. -/
  | installed (file : Option (Sink File))
  | failed (error : LogError)
  /-- The installation panicked, and the program has caught that. -/
  | panicked
  | dropped (any : Bool)
  | emitted
  deriving DecidableEq, Repr

/-- Tells whether an installation went well. -/
def Answer.ofResult {File : Type} : Except Failure (Option (Sink File)) → Answer File
  | .ok file => .installed file
  | .error (.refused error) => .failed error
  | .error .panicked => .panicked

/-- Carries out one step. -/
def step (routing : Routing World File) : Step → Routing World File × Answer File
  | .installLasting config =>
    let (routing, result) := routing.installLasting config
    (routing, .ofResult result)
  | .installPassing config =>
    let (routing, result) := routing.installPassing config
    (routing, .ofResult result)
  | .dropPassing =>
    let (routing, any) := routing.dropPassing
    (routing, .dropped any)
  | .emit events => (routing.emitAll events, .emitted)

/-- Carries out steps in order. A program that does not catch a panic ends with the step that panics. -/
def run (routing : Routing World File) : List Step → Routing World File × List (Answer File)
  | [] => (routing, [])
  | first :: rest =>
    let (next, answer) := routing.step first
    let (last, answers) := next.run rest
    (last, answer :: answers)

end Routing
end Allotment.Log
