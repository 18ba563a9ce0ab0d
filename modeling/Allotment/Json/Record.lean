import Allotment.Json.Problem
import Allotment.Json.Skip

/-! Records of counts. A record is written as an object with its fields in order. It is read from an object in which
    they come in any order, beside other members that are passed over, or from an array of their values. -/

namespace Allotment.Json

/-- A field of a record. An optional one may be null, and may be left out of an object. -/
structure Field where
  name : String
  optional : Bool
  deriving DecidableEq, Repr

/-- A type of records: its fields, and how a record is made of their values and taken apart into them. -/
structure Form (α : Type) where
  name : String
  fields : List Field
  toValues : α → List (Option Cells)
  ofValues? : List (Option Cells) → Option α
  /-- Taking a record apart loses nothing. -/
  ofValues?_toValues : ∀ a, ofValues? (toValues a) = some a

/-! ### Writing -/

/-- A value as text. -/
def valueText : Option Cells → List Char
  | none => "null".toList
  | some n => Nat.toDigits 10 n.toNat

/-- A member of an object as text. -/
def memberText (field : Field) (value : Option Cells) : List Char :=
  '"' :: field.name.toList ++ '"' :: ':' :: valueText value

/-- Texts one after another with a comma between. -/
def commaSeparated : List (List Char) → List Char
  | [] => []
  | [text] => text
  | text :: next :: rest => text ++ ',' :: commaSeparated (next :: rest)

/-- A record as text. -/
def Form.text {α : Type} (form : Form α) (a : α) : List Char :=
  '\x7b' :: commaSeparated (form.fields.zipWith memberText (form.toValues a)) ++ ['\x7d']

/-- A list of records as text. -/
def Form.listText {α : Type} (form : Form α) (as : List α) : List Char :=
  '[' :: commaSeparated (as.map form.text) ++ [']']

/-! ### Reading -/

/-- What has been read from the front of a stream, and what follows it. -/
structure Taken (α : Type) where
  value : α
  rest : List Token

/-- Reads a count. -/
def readCells (token : Token) : Except Problem Cells :=
  match token with
  | .number (some (.natural n)) => .ok n
  | .number (some (.negative n)) => .error (.wrongNumber n "usize")
  | token => .error (.mismatch token "usize")

/-- Reads the value of a field. -/
def Field.read (field : Field) (token : Token) : Except Problem (Option Cells) :=
  match field.optional, token with
  | true, .null => .ok none
  | _, token => (readCells token).map some

/-- Drops the comma before an item, unless the item is the first. -/
def beforeItem (isFirst : Bool) (tokens : List Token) : Except Problem (List Token) :=
  match isFirst, tokens with
  | true, tokens => .ok tokens
  | false, .comma :: rest => .ok rest
  | false, _ => .error .malformed

namespace Form
variable {α : Type}

/-- What a reader that wants such a record asks for. -/
def wanted (form : Form α) : String := s!"struct {form.name}"

/-- Reads the values of the last fields from an array of which `count` items have been read. -/
def readItems (form : Form α) (count : Nat) : List Field → List Token → Except Problem (Taken (List (Option Cells)))
  | [], .closeBracket :: rest => .ok ⟨[], rest⟩
  | [], _ => .error .malformed
  | _ :: _, .closeBracket :: _ =>
    .error (.tooFewItems count s!"{form.wanted} with {form.fields.length} elements")
  | field :: fields, tokens => do
    match ← beforeItem (count = 0) tokens with
    | [] => .error .malformed
    | token :: rest =>
      let value ← field.read token
      let later ← form.readItems (count + 1) fields rest
      return ⟨value :: later.value, later.rest⟩

/-- The values of fields by their names, in the order in which the fields were met. -/
abbrev Found := List (String × Option Cells)

/-- Reads what follows the key `name`: the value of a field, or anything else, which is passed over. -/
def readAfterKey (form : Form α) (found : Found) (name : String) (tokens : List Token) :
    Except Problem (Taken Found) :=
  match form.fields.find? (·.name == name) with
  | some field =>
    if (found.lookup name).isSome then .error (.duplicateField name)
    else
      match tokens with
      | .colon :: token :: rest => (field.read token).map fun value => ⟨found ++ [(name, value)], rest⟩
      | _ => .error .malformed
  | none =>
    match tokens with
    | .colon :: rest =>
      match skipValue? rest with
      | some rest => .ok ⟨found, rest⟩
      | none => .error .malformed
    | _ => .error .malformed

/-- Reads one member of an object. -/
def readMember (form : Form α) (found : Found) (isFirst : Bool) (tokens : List Token) :
    Except Problem (Taken Found) := do
  match ← beforeItem isFirst tokens with
  | .text (some name) :: rest => form.readAfterKey found name rest
  | _ => .error .malformed

theorem length_readAfterKey {form : Form α} {found : Found} {name : String} {tokens : List Token}
    {taken : Taken Found} (h : form.readAfterKey found name tokens = .ok taken) :
    taken.rest.length < tokens.length := by
  unfold readAfterKey at h
  split at h
  · split at h
    · contradiction
    · split at h
      · rename_i field _ _ _ token _
        cases hread : field.read token with
        | error problem => simp [hread, Except.map] at h
        | ok value =>
          simp only [hread, Except.map, Except.ok.injEq] at h
          subst h
          simp only [List.length_cons]
          omega
      · contradiction
  · split at h
    · split at h
      · rename_i hskip
        obtain rfl := Except.ok.inj h
        have := length_skip? hskip
        simp only [List.length_cons]
        omega
      · contradiction
    · contradiction

theorem length_readMember {form : Form α} {found : Found} {isFirst : Bool} {tokens : List Token}
    {taken : Taken Found} (h : form.readMember found isFirst tokens = .ok taken) :
    taken.rest.length < tokens.length := by
  unfold readMember beforeItem at h
  split at h
  · simp only [bind, Except.bind] at h
    split at h
    · have := length_readAfterKey h
      simp only [List.length_cons]
      omega
    · contradiction
  · simp only [bind, Except.bind] at h
    split at h
    · have := length_readAfterKey h
      simp only [List.length_cons]
      omega
    · contradiction
  · contradiction

/-- Reads the members that are left of an object. -/
def readMembers (form : Form α) (found : Found) (isFirst : Bool) (tokens : List Token) :
    Except Problem (Taken Found) :=
  match tokens with
  | .closeBrace :: rest => .ok ⟨found, rest⟩
  | tokens =>
    match _ : form.readMember found isFirst tokens with
    | .error problem => .error problem
    | .ok taken => form.readMembers taken.value false taken.rest
termination_by tokens.length
decreasing_by
  rename_i hmember
  exact length_readMember hmember

/-- The values of all fields, in their order. -/
def complete (form : Form α) (found : Found) : Except Problem (List (Option Cells)) :=
  form.fields.mapM fun field =>
    match found.lookup field.name with
    | some value => .ok value
    | none => if field.optional then .ok none else .error (.missingField field.name)

/-- Reads the values of a record. -/
def readValues (form : Form α) (tokens : List Token) : Except Problem (Taken (List (Option Cells))) :=
  match tokens with
  | [] => .error .malformed
  | .openBracket :: rest => form.readItems 0 form.fields rest
  | .openBrace :: rest => do
    let found ← form.readMembers [] true rest
    return ⟨← form.complete found.value, found.rest⟩
  | token :: _ => .error (.mismatch token form.wanted)

/-- Reads a record. -/
def read (form : Form α) (tokens : List Token) : Except Problem (Taken α) := do
  let values ← form.readValues tokens
  match form.ofValues? values.value with
  | some a => return ⟨a, values.rest⟩
  | none => .error .malformed

end Form
end Allotment.Json
