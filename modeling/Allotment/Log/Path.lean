/-! Paths of files, as the steps of a way through directories. A path keeps count of the bytes that it is written with:
    what goes nowhere takes room all the same, and there is a longest path. -/

namespace Allotment.Log

/-- One step of a path. -/
inductive PathStep
  /-- To the root. -/
  | root
  /-- Nowhere. -/
  | stay
  /-- To the directory above. -/
  | up
  | name (name : String)
  deriving DecidableEq, Repr

/-- A step where it stands in a written path. -/
structure PathPart where
  step : PathStep
  /-- The bytes of the path up to the end of the step. -/
  reach : Nat
  deriving DecidableEq, Repr

/-- The way that a path goes. -/
abbrev Path := List PathPart

namespace Path

/-! ### Reading -/

/-- A segment goes nowhere. -/
def isIdle (segment : String) : Bool := segment = "" || segment = "."

/-- The step of one segment. -/
def step (segment : String) : PathStep := if segment = ".." then .up else .name segment

/-- The parts of a path from byte `start` on, where the given segments stand with a slash between. -/
def parts (start : Nat) : List String → Path
  | [] => []
  | segment :: rest =>
    let reach := start + segment.utf8ByteSize
    let later := parts (reach + 1) rest
    if isIdle segment then later else ⟨step segment, reach⟩ :: later

/-- The way of a written path. Slashes in a row count as one, and so do those at the end; a single dot counts only at
    the very start. -/
def ofText (text : String) : Path :=
  match text.splitOn "/" with
  | "" :: next :: rest => ⟨.root, 1⟩ :: parts 1 (next :: rest)
  | "." :: rest => ⟨.stay, 1⟩ :: parts 2 rest
  | segments => parts 0 segments

/-! ### Ends -/

/-- The bytes that a path is written with, without what goes nowhere at its end. -/
def size (path : Path) : Nat :=
  match path.getLast? with
  | none => 0
  | some last => last.reach

/-- The path of what has a given name in the directory of a path. -/
def child (path : Path) (name : String) : Path :=
  let start := match path.getLast? with
    | none => 0
    | some ⟨.root, reach⟩ => reach
    | some ⟨_, reach⟩ => reach + 1
  path ++ [⟨.name name, start + name.utf8ByteSize⟩]

/-- The way to the directory that the last step starts from; none if there is no step, or only that to the root. -/
def parent? (path : Path) : Option Path :=
  match path.getLast? with
  | none | some ⟨.root, _⟩ => none
  | some _ => some path.dropLast

/-- The name that the last step goes to. -/
def fileName? (path : Path) : Option String :=
  match path.getLast? with
  | some ⟨.name name, _⟩ => some name
  | _ => none

end Path
end Allotment.Log
