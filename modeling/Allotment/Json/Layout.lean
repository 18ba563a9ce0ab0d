import Allotment.Json.RecordList
import Allotment.Region

/-! Slots, regions and axes as JSON. -/

namespace Allotment
open Json

/-- A slot is a record of three counts, of which the size may be missing. -/
def Slot.form : Form Slot where
  name := "Slot"
  fields := [⟨"size", true⟩, ⟨"ratio", false⟩, ⟨"minimum_size", false⟩]
  toValues slot := [slot.size, some slot.ratio, some slot.minimumSize]
  ofValues?
    | [size, some ratio, some minimumSize] => some { size, ratio, minimumSize }
    | _ => none
  ofValues?_toValues _ := rfl

/-- A region is a record of four counts. -/
def Region.form : Form Region where
  name := "Region"
  fields := [⟨"col", false⟩, ⟨"row", false⟩, ⟨"width", false⟩, ⟨"height", false⟩]
  toValues region := [some region.col, some region.row, some region.width, some region.height]
  ofValues?
    | [some col, some row, some width, some height] => some { col, row, width, height }
    | _ => none
  ofValues?_toValues _ := rfl

namespace Axis

/-- An axis as JSON text. -/
def text (axis : Axis) : List Char := '"' :: axis.name.toList ++ ['"']

/-- The axis of a given name. -/
def named (name : String) : Except Problem Axis :=
  match ofName? name with
  | some axis => .ok axis
  | none => .error (.unknownVariant name (all.map Axis.name))

/-- Reads an axis, from its name or from an object in which the name has no value. -/
def read (tokens : List Token) : Except Problem (Taken Axis) :=
  match tokens with
  | .text (some name) :: rest => (named name).map fun axis => ⟨axis, rest⟩
  | .openBrace :: .text (some name) :: rest => do
    let axis ← named name
    match rest with
    | .colon :: .null :: .closeBrace :: rest => return ⟨axis, rest⟩
    | .colon :: .null :: _ => .error .malformed
    | .colon :: token :: _ => .error (.mismatch token "unit")
    | _ => .error .malformed
  | _ => .error .malformed

end Axis
end Allotment
