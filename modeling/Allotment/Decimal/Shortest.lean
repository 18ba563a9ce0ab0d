/-! The shortest decimal of a floating-point number: of all decimals that no other such number is nearer to, those
    with the fewest digits, and of these the nearest. The search is exact: the number is a quotient of whole numbers,
    and so are the ends of the interval of the decimals that are read back as the number. -/

namespace Allotment.Decimal

/-- A positive decimal in scientific form: the first of `digits` counts for `10 ^ exponent`. -/
structure Scientific where
  digits : List Nat
  exponent : Int
  deriving DecidableEq, Repr

/-- A positive quotient, and the ends of an interval around it, all over one denominator. -/
structure Target where
  low : Nat
  value : Nat
  high : Nat
  denominator : Nat
  /-- The ends belong to the interval. -/
  closed : Bool
  deriving DecidableEq, Repr

/-- Binary fractions count in parts of a power of two, of which there are so many. -/
def fractionSize : Nat := 0x10000000000000

namespace Target

/-- The number `mantissa * 2 ^ power`, in the middle between its neighbours; only the one below a power of two is at
    half the distance. -/
def ofBinary (mantissa : Nat) (power : Int) (lowest : Bool) : Target :=
  let low := if mantissa = fractionSize && !lowest then 4 * mantissa - 1 else 4 * mantissa - 2
  let up := Nat.pow 2 (power - 2).toNat
  { low := low * up, value := 4 * mantissa * up, high := (4 * mantissa + 2) * up
    denominator := Nat.pow 2 (2 - power).toNat
    closed := mantissa % 2 = 0 }

/-- The target times `10 ^ shift`. -/
def scale (target : Target) (shift : Int) : Target :=
  let up := Nat.pow 10 shift.toNat
  { target with
    low := target.low * up, value := target.value * up, high := target.high * up
    denominator := target.denominator * Nat.pow 10 (-shift).toNat }

/-- A whole number is read back as the target. -/
def holds (target : Target) (n : Nat) : Bool :=
  let scaled := n * target.denominator
  if target.closed then target.low ≤ scaled && scaled ≤ target.high
  else target.low < scaled && scaled < target.high

/-- The whole number nearest to the target that is read back as it, if there is one; of two equally near the even
    one. -/
def nearest? (target : Target) : Option Nat :=
  let below := target.value / target.denominator
  let distance := 2 * (target.value % target.denominator)
  match target.holds below, target.holds (below + 1) with
  | false, false => none
  | true, false => some below
  | false, true => some (below + 1)
  | true, true =>
    if distance < target.denominator || distance = target.denominator && below % 2 = 0 then some below
    else some (below + 1)

/-- The exponent of the first digit of the target, looked for downwards from `start` in `steps` steps. -/
def leading (target : Target) : (steps : Nat) → (start : Int) → Int
  | 0, start => start
  | steps + 1, start =>
    let scaled := target.scale (-start)
    if scaled.denominator ≤ scaled.value then start else target.leading steps (start - 1)

end Target

/-- The digits of a positive number without the zeros at their end. -/
def significant (n : Nat) : List Nat :=
  ((Nat.toDigits 10 n).reverse.dropWhile (· = '0')).reverse.map fun c => c.toNat - '0'.toNat

/-- The first of the given numbers of digits with which a decimal is read back as the target. -/
def shortest (target : Target) (exponent : Int) : List Nat → Scientific
  | [] => ⟨[], exponent⟩
  | count :: counts =>
    match (target.scale (count - 1 - exponent)).nearest? with
    | none => shortest target exponent counts
    | some n => ⟨significant n, if n < Nat.pow 10 count then exponent else exponent + 1⟩

/-- The shortest decimal of a positive finite floating-point number, given by its bits without the sign. -/
def ofBits (bits : Nat) : Scientific :=
  let field : Nat := bits / fractionSize
  let fraction : Nat := bits % fractionSize
  let mantissa := if field = 0 then fraction else fractionSize + fraction
  let target := Target.ofBinary mantissa ((max field 1 : Nat) - 1075 : Int) (field ≤ 1)
  shortest target (target.leading 640 309) ((List.range 17).map (· + 1))

/-- How decimals are written: positionally where the exponent of the first digit is in a range, else with an exponent
    that has a sign. -/
structure Style where
  leastPositional : Int
  greatestPositional : Int
  deriving DecidableEq, Repr

/-- The digits as text. -/
def digitText (digits : List Nat) : String := String.join (digits.map toString)

/-- The exponent as text. -/
def exponentText (exponent : Int) : String :=
  (if exponent < 0 then "e-" else "e+") ++ toString exponent.natAbs

/-- A decimal as text; a positional one has at least one digit on either side of the point. -/
def Style.write (style : Style) (decimal : Scientific) : String :=
  let { digits, exponent } := decimal
  if exponent < style.leastPositional || style.greatestPositional < exponent then
    let fraction := digits.drop 1
    digitText (digits.take 1) ++ (if fraction.isEmpty then "" else "." ++ digitText fraction) ++ exponentText exponent
  else if exponent < 0 then
    "0." ++ digitText (List.replicate (-exponent - 1).toNat 0 ++ digits)
  else
    let whole := digits.take (exponent.toNat + 1)
    let fraction := digits.drop (exponent.toNat + 1)
    digitText (whole ++ List.replicate (exponent.toNat + 1 - whole.length) 0) ++ "." ++
      (if fraction.isEmpty then "0" else digitText fraction)

/-- The bit that makes a floating-point number negative. -/
def signBit : Nat := 0x8000000000000000

/-- A finite floating-point number as text. -/
def Style.writeFloat (style : Style) (x : Float) : String :=
  let bits := x.toBits.toNat
  let size := bits % signBit
  (if signBit ≤ bits then "-" else "") ++ (if size = 0 then "0.0" else style.write (ofBits size))

end Allotment.Decimal
