/-! Texts between double quotes as they are written, with backslashes before special characters. An escaped code is a
    16-bit unit: two of them in a row may stand for one character, and half of such a pair stands for none. -/

namespace Allotment.Json

/-- A character of a text literal, or an escaped 16-bit unit. -/
inductive Piece
  | char (c : Char)
  | unit (n : Nat)
  deriving DecidableEq, Repr

/-- The value of a hexadecimal digit of either case. -/
def hexDigit? (c : Char) : Option Nat :=
  if c.isDigit then some (c.toNat - '0'.toNat)
  else if 'a' ≤ c && c ≤ 'f' then some (c.toNat - 'a'.toNat + 10)
  else if 'A' ≤ c && c ≤ 'F' then some (c.toNat - 'A'.toNat + 10)
  else none

/-- The unit that four hexadecimal digits stand for. -/
def unit? (a b c d : Char) : Option Piece := do
  return .unit (((← hexDigit? a) * 16 + (← hexDigit? b)) * 256 + (← hexDigit? c) * 16 + (← hexDigit? d))

/-- The character that a letter after a backslash stands for. -/
def shorthand? : Char → Option Char
  | '"' => some '"'
  | '\\' => some '\\'
  | '/' => some '/'
  | 'b' => some '\x08'
  | 'f' => some '\x0c'
  | 'n' => some '\n'
  | 'r' => some '\r'
  | 't' => some '\t'
  | _ => none

/-- The pieces of a literal whose opening quote has been read, and what follows its closing quote. Control characters
    must be escaped. -/
def pieces? : List Char → Option (List Piece × List Char)
  | [] => none
  | '"' :: rest => some ([], rest)
  | '\\' :: 'u' :: a :: b :: c :: d :: rest => do
    let piece ← unit? a b c d
    let (pieces, rest) ← pieces? rest
    return (piece :: pieces, rest)
  | '\\' :: c :: rest => do
    let c ← shorthand? c
    let (pieces, rest) ← pieces? rest
    return (.char c :: pieces, rest)
  | c :: rest =>
    if c.toNat < 32 || c = '\\' then none
    else do
      let (pieces, rest) ← pieces? rest
      return (.char c :: pieces, rest)

theorem length_pieces? {text rest : List Char} {pieces : List Piece} (h : pieces? text = some (pieces, rest)) :
    rest.length < text.length := by
  fun_induction pieces? text generalizing rest pieces with
  | case1 => contradiction
  | case2 =>
    obtain ⟨-, rfl⟩ := Prod.mk.inj (Option.some.inj h)
    simp
  | case3 a b c d tail ih =>
    simp only [Option.bind_eq_bind, Option.bind_eq_some_iff, Prod.exists] at h
    obtain ⟨piece, -, pieces', rest', hp, h⟩ := h
    obtain ⟨-, rfl⟩ := Prod.mk.inj (Option.some.inj h)
    have := ih hp
    simp only [List.length_cons]
    omega
  | case4 c tail _ ih =>
    simp only [Option.bind_eq_bind, Option.bind_eq_some_iff, Prod.exists] at h
    obtain ⟨piece, -, pieces', rest', hp, h⟩ := h
    obtain ⟨-, rfl⟩ := Prod.mk.inj (Option.some.inj h)
    have := ih hp
    simp only [List.length_cons]
    omega
  | case5 => contradiction
  | case6 c tail _ _ _ _ ih =>
    simp only [Option.bind_eq_bind, Option.bind_eq_some_iff, Prod.exists] at h
    obtain ⟨pieces', rest', hp, h⟩ := h
    obtain ⟨-, rfl⟩ := Prod.mk.inj (Option.some.inj h)
    have := ih hp
    simp only [List.length_cons]
    omega

/-- A unit that is the first half of a pair. -/
def isHigh (n : Nat) : Bool := 0xd800 ≤ n && n < 0xdc00

/-- A unit that is the second half of a pair. -/
def isLow (n : Nat) : Bool := 0xdc00 ≤ n && n < 0xe000

/-- The character that a pair of units stands for. -/
def ofPair (high low : Nat) : Char := Char.ofNat (0x10000 + (high - 0xd800) * 0x400 + (low - 0xdc00))

/-- The characters that pieces stand for, if no half of a pair is on its own. -/
def characters? : List Piece → Option (List Char)
  | [] => some []
  | .char c :: rest => (characters? rest).map (c :: ·)
  | .unit n :: rest =>
    if isHigh n then
      match rest with
      | .unit m :: rest => if isLow m then (characters? rest).map (ofPair n m :: ·) else none
      | _ => none
    else if isLow n then none
    else (characters? rest).map (Char.ofNat n :: ·)

end Allotment.Json
