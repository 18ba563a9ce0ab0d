/-! Numbers of 128 bits. Signed ones stop at either end of their range, or wrap round from one end to the other.
    Unsigned ones have a multiplication followed by a division that is exact even where the product needs more than
    128 bits: the product is then never formed, and the division is carried out while the multiplier is read bit by
    bit. -/

namespace Allotment.Wide

/-! ### Signed numbers -/

/-- The least signed number of 128 bits. -/
def least : Int := -0x80000000000000000000000000000000

/-- The greatest signed number of 128 bits. -/
def greatest : Int := 0x7fffffffffffffffffffffffffffffff

/-- The signed number of 128 bits nearest to `n`. -/
def clamp (n : Int) : Int := max least (min n greatest)

/-- The signed number of 128 bits that `n` wraps round to. -/
def wrap (n : Int) : Int := (n - least) % 0x100000000000000000000000000000000 + least

theorem clamp_of_mem {n : Int} (hl : least ≤ n) (hg : n ≤ greatest) : clamp n = n := by
  simp only [clamp]
  omega

theorem wrap_of_mem {n : Int} (hl : least ≤ n) (hg : n ≤ greatest) : wrap n = n := by
  rw [least] at hl
  rw [greatest] at hg
  rw [wrap, least, Int.emod_eq_of_lt (by omega) (by omega)]
  omega

theorem wrap_add_wrap (m n : Int) : wrap (m + wrap n) = wrap (m + n) := by
  simp only [wrap, least]
  omega

theorem wrap_sub_wrap (m n : Int) : wrap (m - wrap n) = wrap (m - n) := by
  simp only [wrap, least]
  omega

/-! ### Multiplying, then dividing -/

/-- A quotient with its remainder. -/
structure Division where
  quotient : BitVec 128
  remainder : BitVec 128
  deriving DecidableEq, Repr

namespace Division

/-- Takes the divisor out of the remainder once, if it goes in. -/
def carry (divisor : BitVec 128) (d : Division) : Division :=
  if divisor ≤ d.remainder then ⟨d.quotient + 1, d.remainder - divisor⟩ else d

/-- Doubles what has been divided. -/
def double (divisor : BitVec 128) (d : Division) : Division :=
  carry divisor ⟨d.quotient <<< 1, d.remainder <<< 1⟩

/-- Adds `a` to what has been divided. -/
def add (a divisor : BitVec 128) (d : Division) : Division :=
  carry divisor ⟨d.quotient, d.remainder + a⟩

/-- Reads one more bit of the multiplier: what has been divided doubles, and a set bit adds `a` to it. -/
def read (a divisor : BitVec 128) (d : Division) (bit : Bool) : Division :=
  if bit then (d.double divisor).add a divisor else d.double divisor

end Division

/-- The bits of `b` from its highest set bit down. -/
def bits (b : BitVec 128) : List Bool :=
  ((List.range (128 - b.clz.toNat)).map b.getLsbD).reverse

/-- Divides `a * b` by `divisor`, one bit of `b` at a time. -/
def longMulDiv (a b divisor : BitVec 128) : Division :=
  (bits b).foldl (Division.read a divisor) ⟨0, 0⟩

/-- Divides `a * b` by `divisor`, at once where the product fits. -/
def mulDiv (a b divisor : BitVec 128) : Division :=
  if a.umulOverflow b then longMulDiv a b divisor else ⟨a * b / divisor, a * b % divisor⟩

end Allotment.Wide
