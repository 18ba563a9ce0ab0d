import Allotment.Json.Number
import Allotment.Json.TextLiteral

/-! JSON text as tokens. Blanks between tokens are dropped. Where no token can be read the stream ends with a bad one,
    so a reader that stops at the first problem meets it only if it gets that far. -/

namespace Allotment.Json

/-- What JSON text is made of. A number that is infinite in floating point, and a text literal with half of a pair of
    units, are tokens without a value: they can be passed over but not read. -/
inductive Token
  | openBracket | closeBracket | openBrace | closeBrace | comma | colon | null
  | bool (value : Bool)
  | number (value : Option Number)
  | text (value : Option String)
  | bad

/-- The four characters that may stand between tokens. -/
def isBlank (c : Char) : Bool := c = ' ' || c = '\t' || c = '\n' || c = '\r'

namespace Token

/-- The token that starts with `c`, and what follows it in `rest`. -/
def first? (c : Char) (rest : List Char) : Option (Token × List Char) :=
  match c, rest with
  | '[', rest => some (.openBracket, rest)
  | ']', rest => some (.closeBracket, rest)
  | '\x7b', rest => some (.openBrace, rest)
  | '\x7d', rest => some (.closeBrace, rest)
  | ',', rest => some (.comma, rest)
  | ':', rest => some (.colon, rest)
  | 'n', 'u' :: 'l' :: 'l' :: rest => some (.null, rest)
  | 't', 'r' :: 'u' :: 'e' :: rest => some (.bool true, rest)
  | 'f', 'a' :: 'l' :: 's' :: 'e' :: rest => some (.bool false, rest)
  | '"', rest => (pieces? rest).map fun (pieces, rest) => (.text ((characters? pieces).map String.ofList), rest)
  | c, rest => (Literal.scan? (c :: rest)).map fun (literal, rest) => (.number literal.number?, rest)

theorem length_first? {c : Char} {text rest : List Char} {token : Token} (h : first? c text = some (token, rest)) :
    rest.length ≤ text.length := by
  unfold first? at h
  split at h
  case h_10 =>
    simp only [Option.map_eq_some_iff, Prod.exists] at h
    obtain ⟨pieces, rest', hp, h⟩ := h
    obtain ⟨-, rfl⟩ := Prod.mk.inj h
    exact Nat.le_of_lt (length_pieces? hp)
  case h_11 =>
    simp only [Option.map_eq_some_iff, Prod.exists] at h
    obtain ⟨literal, rest', hp, h⟩ := h
    obtain ⟨-, rfl⟩ := Prod.mk.inj h
    exact Nat.le_of_lt_succ (Literal.length_scan? hp)
  all_goals
    obtain ⟨-, rfl⟩ := Prod.mk.inj (Option.some.inj h)
    first
      | exact Nat.le_refl _
      | exact Nat.le_add_right _ 3
      | exact Nat.le_add_right _ 4

end Token

/-- The tokens of a text. -/
def tokens (text : List Char) : List Token :=
  match _ : text.dropWhile isBlank with
  | [] => []
  | c :: rest =>
    match _ : Token.first? c rest with
    | none => [.bad]
    | some (token, rest) => token :: tokens rest
termination_by text.length
decreasing_by
  rename_i hblank hfirst
  have hle := (List.dropWhile_sublist isBlank (l := text)).length_le
  have := Token.length_first? hfirst
  rw [hblank] at hle
  simp at hle
  omega

end Allotment.Json
