import Allotment.Cells

/-! Numbers as they are written, and what they are read as. A whole number without fraction and exponent is read
    exactly if it fits into 64 bits. Any other is a floating-point number, made of the leading digits that fit into
    64 bits and a power of ten, and there is none of infinite size. -/

namespace Allotment.Json

/-! ### As written -/

/-- The parts of a written number; `exponent` has its sign and its digits. -/
structure Literal where
  negative : Bool
  whole : List Nat
  fraction : Option (List Nat)
  exponent : Option (Bool × List Nat)
  deriving DecidableEq, Repr

/-- The value of a digit. -/
def digit (c : Char) : Nat := c.toNat - '0'.toNat

/-- The digits at the front of a text, and what follows them. -/
def digits (text : List Char) : List Nat × List Char :=
  ((text.takeWhile Char.isDigit).map digit, text.dropWhile Char.isDigit)

/-- Digits of which there must be one at least. -/
def someDigits? (text : List Char) : Option (List Nat × List Char) :=
  match digits text with
  | ([], _) => none
  | (ds, rest) => some (ds, rest)

namespace Literal

/-- A minus sign, if there is one. -/
def sign : List Char → Bool × List Char
  | '-' :: rest => (true, rest)
  | text => (false, text)

/-- Digits without a leading zero, or a zero alone. -/
def whole? (text : List Char) : Option (List Nat × List Char) := do
  let (ds, rest) ← someDigits? text
  if ds.head? = some 0 && ds.length ≠ 1 then none else some (ds, rest)

/-- A point and digits, if there is a point. -/
def fraction? : List Char → Option (Option (List Nat) × List Char)
  | '.' :: rest => do
    let (ds, rest) ← someDigits? rest
    return (some ds, rest)
  | text => some (none, text)

/-- The sign of an exponent; a plus sign may be left out. -/
def exponentSign : List Char → Bool × List Char
  | '-' :: rest => (true, rest)
  | '+' :: rest => (false, rest)
  | text => (false, text)

/-- A letter `e`, a sign and digits, if there is such a letter. -/
def exponent? (text : List Char) : Option (Option (Bool × List Nat) × List Char) :=
  match text with
  | [] => some (none, [])
  | c :: rest =>
    if c = 'e' || c = 'E' then do
      let (negative, rest) := exponentSign rest
      let (ds, rest) ← someDigits? rest
      return (some (negative, ds), rest)
    else some (none, text)

/-- The number at the front of a text, and what follows it. -/
def scan? (text : List Char) : Option (Literal × List Char) := do
  let (negative, text) := sign text
  let (whole, text) ← whole? text
  let (fraction, text) ← fraction? text
  let (exponent, text) ← exponent? text
  return (⟨negative, whole, fraction, exponent⟩, text)

/-! #### What is left is shorter -/

theorem length_someDigits? {text rest : List Char} {ds : List Nat} (h : someDigits? text = some (ds, rest)) :
    rest.length < text.length := by
  cases text with
  | nil => simp [someDigits?, digits] at h
  | cons c cs =>
    by_cases hc : c.isDigit
    · simp only [someDigits?, digits, List.takeWhile_cons, hc, if_true, List.map_cons, List.dropWhile_cons,
        Option.some.injEq, Prod.mk.injEq] at h
      obtain ⟨-, rfl⟩ := h
      have := (List.dropWhile_sublist (Char.isDigit) (l := cs)).length_le
      simp only [List.length_cons]
      omega
    · simp [someDigits?, digits, hc] at h

theorem length_sign (text : List Char) : (sign text).2.length ≤ text.length := by
  unfold sign
  split <;> simp

theorem length_exponentSign (text : List Char) : (exponentSign text).2.length ≤ text.length := by
  unfold exponentSign
  split <;> simp

theorem length_whole? {text rest : List Char} {ds : List Nat} (h : whole? text = some (ds, rest)) :
    rest.length < text.length := by
  simp only [whole?, Option.bind_eq_bind, Option.bind_eq_some_iff, Prod.exists] at h
  obtain ⟨ds', rest', hd, h⟩ := h
  split at h
  · contradiction
  · obtain ⟨rfl, rfl⟩ := Prod.mk.inj (Option.some.inj h)
    exact length_someDigits? hd

theorem length_fraction? {text rest : List Char} {ds : Option (List Nat)} (h : fraction? text = some (ds, rest)) :
    rest.length ≤ text.length := by
  unfold fraction? at h
  split at h
  · simp only [Option.bind_eq_bind, Option.bind_eq_some_iff, Prod.exists] at h
    obtain ⟨ds', rest', hd, h⟩ := h
    obtain ⟨-, rfl⟩ := Prod.mk.inj (Option.some.inj h)
    have := length_someDigits? hd
    simp only [List.length_cons]
    omega
  · obtain ⟨-, rfl⟩ := Prod.mk.inj (Option.some.inj h)
    exact Nat.le_refl _

theorem length_exponent? {text rest : List Char} {ds : Option (Bool × List Nat)}
    (h : exponent? text = some (ds, rest)) : rest.length ≤ text.length := by
  unfold exponent? at h
  split at h
  · obtain ⟨-, rfl⟩ := Prod.mk.inj (Option.some.inj h)
    exact Nat.le_refl _
  · rename_i c cs
    split at h
    · simp only [Option.bind_eq_bind, Option.bind_eq_some_iff, Prod.exists] at h
      obtain ⟨ds', rest', hd, h⟩ := h
      obtain ⟨-, rfl⟩ := Prod.mk.inj (Option.some.inj h)
      have := length_someDigits? hd
      have := length_exponentSign cs
      simp only [List.length_cons]
      omega
    · obtain ⟨-, rfl⟩ := Prod.mk.inj (Option.some.inj h)
      exact Nat.le_refl _

theorem length_scan? {text rest : List Char} {literal : Literal} (h : scan? text = some (literal, rest)) :
    rest.length < text.length := by
  simp only [scan?, Option.bind_eq_bind, Option.bind_eq_some_iff, Prod.exists] at h
  obtain ⟨ds, afterWhole, hw, fraction, afterFraction, hf, exponent, afterExponent, he, h⟩ := h
  obtain ⟨-, rfl⟩ := Prod.mk.inj (Option.some.inj h)
  have := length_sign text
  have := length_whole? hw
  have := length_fraction? hf
  have := length_exponent? he
  omega

end Literal

/-! ### As read -/

/-- A number that has been read. -/
inductive Number
  | natural (n : Cells)
  | negative (n : Int)
  | floating (x : Float)

/-- The number that digits stand for. -/
def ofDigits (ds : List Nat) : Nat := ds.foldl (fun n d => n * 10 + d) 0

/-- Appends digits to a number as long as it fits into 64 bits; the digits that are left. -/
def takeDigits (n : Nat) : List Nat → Nat × List Nat
  | [] => (n, [])
  | d :: ds => if n * 10 + d ≤ Cells.most then takeDigits (n * 10 + d) ds else (n, d :: ds)

/-- Floating-point numbers reach up to this power of ten. -/
def greatestPower : Nat := 308

/-- Multiplies `x` by a power of ten, in steps that floating-point numbers can take; none if it is infinite. -/
def scale? (x : Float) (power : Int) : Option Float :=
  if power.natAbs ≤ greatestPower then
    let factor := Float.ofScientific 1 false power.natAbs
    if power < 0 then some (x / factor)
    else if (x * factor).isInf then none
    else some (x * factor)
  else if x == 0 then some x
  else if power < 0 then scale? (x / Float.ofScientific 1 false greatestPower) (power + greatestPower)
  else none
termination_by (-power).toNat
decreasing_by
  simp only [greatestPower] at *
  omega

namespace Literal

/-- The digits that count, and the power of ten that goes with them. -/
def significand (literal : Literal) : Nat × Int :=
  let (n, beyond) := takeDigits 0 literal.whole
  let fraction := literal.fraction.getD []
  let (n, ignored) := takeDigits n fraction
  (n, beyond.length - (fraction.length - ignored.length : Nat))

/-- An exponent counts up to 31 bits. -/
def greatestExponent : Nat := 0x7fffffff

/-- The size of the number in floating point; none if it is infinite. -/
def size? (literal : Literal) : Option Float :=
  let (n, power) := literal.significand
  let x := n.toUInt64.toFloat
  match literal.exponent with
  | none => scale? x power
  | some (negative, ds) =>
    let exponent := ofDigits ds
    if exponent ≤ greatestExponent then scale? x (if negative then power - exponent else power + exponent)
    else if negative || n = 0 then some 0
    else none

/-- The number in floating point; none if it is infinite. -/
def floating? (literal : Literal) : Option Number :=
  literal.size?.map fun x => .floating (if literal.negative then -x else x)

/-- Negative whole numbers reach down to that of this size. -/
def greatestNegated : Nat := 0x8000000000000000

/-- The number that a literal stands for; none if it is infinite. -/
def number? (literal : Literal) : Option Number :=
  let n := ofDigits literal.whole
  if literal.fraction.isSome || literal.exponent.isSome then literal.floating?
  else if literal.negative then
    if 0 < n && n ≤ greatestNegated then some (.negative (-n)) else literal.floating?
  else if n ≤ Cells.most then some (.natural (UInt64.ofNat n))
  else literal.floating?

end Literal
end Allotment.Json
