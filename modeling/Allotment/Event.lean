import Allotment.Cells
import Allotment.Text.Bracketed

/-! What an allotment reports while it works: an event for every round that pins slots at their bounds, and for
    every pass that squeezes columns. -/

namespace Allotment

/-- How much is let through, from nothing to everything. -/
inductive Level
  | off | error | warn | info | debug | trace
  deriving DecidableEq, Repr

namespace Level

/-- A level lets through what a lower one does, and more. -/
def rank : Level → Nat
  | .off => 0
  | .error => 1
  | .warn => 2
  | .info => 3
  | .debug => 4
  | .trace => 5

def name : Level → String
  | .off => "off"
  | .error => "error"
  | .warn => "warn"
  | .info => "info"
  | .debug => "debug"
  | .trace => "trace"

def all : List Level := [.off, .error, .warn, .info, .debug, .trace]

/-- The level of a given name. -/
def ofName? (text : String) : Option Level := all.find? (·.name == text)

theorem ofName?_name (level : Level) : ofName? level.name = some level := by
  cases level <;> decide

end Level

/-- What holds a slot's size back: a size it does not go below, or one it does not go above. -/
inductive Bound
  | floor | cap
  deriving DecidableEq, Repr

/-- Something that happened in the course of an allotment. -/
inductive Event
  /-- The slots at `places` missed their bound in a round that shared out `budget`, and were given the bound. -/
  | pinned (bound : Bound) (budget : Int) (places : List Nat)
  /-- The widest columns gave up cells: `excess` cells were too many before, and `total` is left after. -/
  | squeezed (excess total : Nat) (widths : List Cells)
  deriving DecidableEq, Repr

namespace Event

/-- Squeezing is of interest more often than the rounds within. -/
def level : Event → Level
  | .pinned .. => .trace
  | .squeezed .. => .debug

/-- The level as it stands in front of a line. -/
def label (event : Event) : String := event.level.name.toUpper

def message : Event → String
  | .pinned .floor .. => "pin slots below their minimum"
  | .pinned .cap .. => "pin slots above their maximum"
  | .squeezed .. => "collapse widest columns"

/-- The data of the event by name, in the order of a line. -/
def fields : Event → List (String × String)
  | .pinned .floor budget places =>
    [("remaining_budget", toString budget), ("pinned", Text.bracketed (places.map toString))]
  | .pinned .cap budget places =>
    [("remaining_total", toString budget), ("pinned", Text.bracketed (places.map toString))]
  | .squeezed excess total widths =>
    [("excess_width", toString excess), ("total_width", toString total),
      ("widths", Text.bracketed (widths.map fun width => toString width.toNat))]

/-- The event on a line of its own. -/
def line (event : Event) : String :=
  " ".intercalate (event.label :: event.message :: event.fields.map fun (name, value) => s!"{name}={value}")

end Event

namespace Level

/-- A level lets an event through that is of its own rank or a lower one. -/
def passes (level : Level) (event : Event) : Bool := event.level.rank ≤ level.rank

end Level

/-- A value, and the events on the way to it in the order they happened. -/
structure Traced (α : Type) where
  value : α
  events : List Event
  deriving DecidableEq, Repr

namespace Traced

/-- Changes the value and keeps the events. -/
def map {α β : Type} (f : α → β) (t : Traced α) : Traced β := ⟨f t.value, t.events⟩

/-- A value without events. -/
def quiet {α : Type} (value : α) : Traced α := ⟨value, []⟩

@[simp] theorem value_map {α β : Type} (f : α → β) (t : Traced α) : (t.map f).value = f t.value := rfl

@[simp] theorem events_map {α β : Type} (f : α → β) (t : Traced α) : (t.map f).events = t.events := rfl

end Traced
end Allotment
