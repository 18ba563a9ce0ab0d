import Allotment.Decimal.Shortest
import Allotment.Json.Token
import Allotment.Text.Quoted

/-! What can be wrong with a JSON text: it is malformed, or what it says is not what is wanted. -/

namespace Allotment.Json

/-- The first problem that reading from left to right meets. -/
inductive Problem
  /-- The text is no JSON, ends early, or goes on after its value. -/
  | malformed
  /-- Something else was wanted than what starts with `found`. -/
  | wrongType (found : Token) (wanted : String)
  /-- A whole number was wanted, but not this one. -/
  | wrongNumber (found : Int) (wanted : String)
  | duplicateField (name : String)
  | missingField (name : String)
  /-- An array ended after `count` items. -/
  | tooFewItems (count : Nat) (wanted : String)
  | unknownVariant (found : String) (known : List String)

/-- Floating-point numbers in problems are positional from `0.00001` up to the largest ones of 16 whole digits. -/
def floatStyle : Decimal.Style := ⟨-5, 15⟩

/-- What a token is the start of, in words; none if no value starts with it. -/
def Token.kind? : Token → Option String
  | .null => some "null"
  | .bool value => some s!"boolean `{value}`"
  | .number (some (.natural n)) => some s!"integer `{n}`"
  | .number (some (.negative n)) => some s!"integer `{n}`"
  | .number (some (.floating x)) => some s!"floating point `{floatStyle.writeFloat x}`"
  | .text (some value) => some ("string " ++ Text.quoted value)
  | .openBracket => some "sequence"
  | .openBrace => some "map"
  | .number none | .text none | .closeBracket | .closeBrace | .comma | .colon | .bad => none

namespace Problem

/-- The problem that `found` stands where something else is wanted. -/
def mismatch (found : Token) (wanted : String) : Problem :=
  if found.kind?.isSome then .wrongType found wanted else .malformed

/-- A problem with what a text says, in words; malformed text has none. -/
def message? : Problem → Option String
  | .malformed => none
  | .wrongType found wanted => found.kind?.map fun kind => s!"invalid type: {kind}, expected {wanted}"
  | .wrongNumber found wanted => some s!"invalid value: integer `{found}`, expected {wanted}"
  | .duplicateField name => some s!"duplicate field `{name}`"
  | .missingField name => some s!"missing field `{name}`"
  | .tooFewItems count wanted => some s!"invalid length {count}, expected {wanted}"
  | .unknownVariant found known =>
    let names := " or ".intercalate (known.map fun name => s!"`{name}`")
    some s!"unknown variant `{found}`, expected {names}"

end Problem
end Allotment.Json
