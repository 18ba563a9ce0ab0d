import Allotment.Json.Token

/-! Passing over a value whatever it is. Only its form is looked at: a number may be infinite and a text may hold half
    of a pair of units. -/

namespace Allotment.Json

/-- A container that has been opened. -/
inductive Container
  | array | object
  deriving DecidableEq, Repr

/-- What may come next in a value that is passed over. -/
inductive Stage
  /-- A value. -/
  | value
  /-- A value, or the end of an array that has just been opened. -/
  | item
  /-- A key, or the end of an object that has just been opened. -/
  | member
  | key
  | colon
  /-- A comma, or the end of the innermost container. -/
  | next
  deriving DecidableEq, Repr

namespace Stage

/-- The stage after the start of a value. -/
def opened (stack : List Container) : Token → Option (Stage × List Container)
  | .openBracket => some (.item, .array :: stack)
  | .openBrace => some (.member, .object :: stack)
  | .null | .bool _ | .number _ | .text _ => some (.next, stack)
  | .closeBracket | .closeBrace | .comma | .colon | .bad => none

/-- The stage after one more token; `stack` has the open containers, the innermost first. -/
def step : Stage → List Container → Token → Option (Stage × List Container)
  | .value, stack, token => opened stack token
  | .item, .array :: stack, .closeBracket => some (.next, stack)
  | .item, stack, token => opened stack token
  | .member, .object :: stack, .closeBrace => some (.next, stack)
  | .member, stack, .text _ => some (.colon, stack)
  | .key, stack, .text _ => some (.colon, stack)
  | .colon, stack, .colon => some (.value, stack)
  | .next, .array :: stack, .comma => some (.value, .array :: stack)
  | .next, .array :: stack, .closeBracket => some (.next, stack)
  | .next, .object :: stack, .comma => some (.key, .object :: stack)
  | .next, .object :: stack, .closeBrace => some (.next, stack)
  | _, _, _ => none

end Stage

/-- What follows the value that has been passed over up to `stage`. -/
def skip? (stage : Stage) (stack : List Container) : List Token → Option (List Token)
  | [] => none
  | token :: rest =>
    match stage.step stack token with
    | none => none
    | some (.next, []) => some rest
    | some (stage, stack) => skip? stage stack rest

theorem length_skip? {stage : Stage} {stack : List Container} {tokens rest : List Token}
    (h : skip? stage stack tokens = some rest) : rest.length < tokens.length := by
  induction tokens generalizing stage stack with
  | nil => contradiction
  | cons token tokens ih =>
    simp only [skip?] at h
    split at h
    · contradiction
    · obtain rfl := Option.some.inj h
      simp
    · have := ih h
      simp only [List.length_cons]
      omega

/-- What follows the value at the front of a stream. -/
def skipValue? (tokens : List Token) : Option (List Token) := skip? .value [] tokens

end Allotment.Json
