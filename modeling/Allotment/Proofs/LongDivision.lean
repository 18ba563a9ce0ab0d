import Allotment.Wide
import Mathlib

/-! Multiplying and then dividing in words of 128 bits is exact for a divisor below half the word. While the bits of
    the multiplier are read, what has been divided so far is `a` times the number that the bits read spell; a bit
    keeps this, and neither its doubling nor its addition leaves the word. -/

namespace Allotment.Wide

/-! ### Bits -/

/-- The number that bits spell after those that spell `n`, the highest bit first. -/
def spell (n : Nat) (bits : List Bool) : Nat := bits.foldl (fun n bit => 2 * n + bit.toNat) n

@[simp] theorem spell_nil (n : Nat) : spell n [] = n := rfl

@[simp] theorem spell_cons (n : Nat) (bit : Bool) (bits : List Bool) :
    spell n (bit :: bits) = spell (2 * n + bit.toNat) bits := rfl

theorem le_spell (n : Nat) (bits : List Bool) : n ≤ spell n bits := by
  induction bits generalizing n with
  | nil => exact Nat.le_refl n
  | cons bit bits ih =>
    have := ih (2 * n + bit.toNat)
    rw [spell_cons]
    omega

theorem spell_reverse_range (b : BitVec 128) (n count : Nat) :
    spell n ((List.range count).map b.getLsbD).reverse = n * 2 ^ count + b.toNat % 2 ^ count := by
  induction count generalizing n with
  | zero => simp [Nat.mod_one]
  | succ count ih =>
    have hbit : (b.toNat.testBit count).toNat = b.toNat / 2 ^ count % 2 := by
      rw [Nat.toNat_testBit]
    have hmod : b.toNat % 2 ^ (count + 1) = b.toNat % 2 ^ count + 2 ^ count * (b.toNat / 2 ^ count % 2) := by
      rw [pow_succ, Nat.mod_mul]
    rw [List.range_succ, List.map_append, List.reverse_append, List.map_singleton, List.reverse_singleton,
      List.singleton_append, spell_cons, ih, hmod, ← hbit, BitVec.getLsbD]
    ring

/-- The bits of a word spell it: those above its highest set bit are left out, and are not set. -/
theorem spell_bits (b : BitVec 128) : spell 0 (bits b) = b.toNat := by
  rw [bits, spell_reverse_range, Nat.zero_mul, Nat.zero_add]
  exact Nat.mod_eq_of_lt BitVec.toNat_lt_two_pow_sub_clz

/-! ### One bit -/

/-- A number below `2 ^ 128` divisors has a quotient that fits. -/
theorem quotient_lt {quotient divisor n : Nat} (hq : quotient * divisor ≤ n) (hn : n < divisor * 2 ^ 128) :
    quotient < 2 ^ 128 := by
  apply Nat.lt_of_mul_lt_mul_left (a := divisor)
  rw [Nat.mul_comm divisor quotient]
  exact Nat.lt_of_le_of_lt hq hn

theorem toNat_shiftLeft_one {x : BitVec 128} (h : 2 * x.toNat < 2 ^ 128) : (x <<< 1).toNat = 2 * x.toNat := by
  rw [BitVec.toNat_shiftLeft, Nat.shiftLeft_eq, pow_one, Nat.mul_comm, Nat.mod_eq_of_lt h]

/-- The number `n` divided by `divisor` is `d`. -/
structure Divided (divisor : BitVec 128) (n : Nat) (d : Division) : Prop where
  whole : d.quotient.toNat * divisor.toNat + d.remainder.toNat = n
  remainder_lt : d.remainder.toNat < divisor.toNat

namespace Divided
variable {a divisor : BitVec 128} {n : Nat} {d : Division}

theorem quotient_eq (h : Divided divisor n d) : d.quotient.toNat = n / divisor.toNat := by
  have hpos : 0 < divisor.toNat := Nat.lt_of_le_of_lt (Nat.zero_le _) h.remainder_lt
  have hw := h.whole
  refine (Nat.div_eq_of_lt_le ?_ ?_).symm
  · omega
  · rw [Nat.succ_mul]
    have := h.remainder_lt
    omega

theorem remainder_eq (h : Divided divisor n d) : d.remainder.toNat = n % divisor.toNat := by
  rw [← h.whole, Nat.mul_add_mod', Nat.mod_eq_of_lt h.remainder_lt]

/-- The quotient has room for one more where the divisor goes into the remainder once more. -/
theorem quotient_succ_lt (hwhole : d.quotient.toNat * divisor.toNat + d.remainder.toNat = n)
    (hle : divisor.toNat ≤ d.remainder.toNat) (hn : n < divisor.toNat * 2 ^ 128) : d.quotient.toNat + 1 < 2 ^ 128 := by
  refine quotient_lt ?_ hn
  rw [Nat.add_mul, Nat.one_mul]
  omega

/-- The quotient can be doubled where what has been divided can. -/
theorem two_mul_quotient_lt (h : Divided divisor n d) (hn : 2 * n < divisor.toNat * 2 ^ 128) :
    2 * d.quotient.toNat < 2 ^ 128 := by
  have hwhole := h.whole
  refine quotient_lt ?_ hn
  rw [Nat.mul_assoc]
  omega

/-- A remainder below two divisors is put right by taking the divisor out once. -/
theorem carry (hwhole : d.quotient.toNat * divisor.toNat + d.remainder.toNat = n)
    (hrem : d.remainder.toNat < 2 * divisor.toNat) (hn : n < divisor.toNat * 2 ^ 128) :
    Divided divisor n (d.carry divisor) := by
  unfold Division.carry
  split
  · rename_i hle
    have hle' : divisor.toNat ≤ d.remainder.toNat := hle
    have hq' : (d.quotient + 1).toNat = d.quotient.toNat + 1 :=
      BitVec.toNat_add_of_lt (quotient_succ_lt hwhole hle' hn)
    have hr' : (d.remainder - divisor).toNat = d.remainder.toNat - divisor.toNat := BitVec.toNat_sub_of_le hle
    refine ⟨?_, ?_⟩
    · show (d.quotient + 1).toNat * divisor.toNat + (d.remainder - divisor).toNat = n
      rw [hq', hr', Nat.add_mul, Nat.one_mul]
      omega
    · show (d.remainder - divisor).toNat < divisor.toNat
      omega
  · rename_i hlt
    exact ⟨hwhole, Nat.lt_of_not_le hlt⟩

theorem double (h : Divided divisor n d) (hdiv : divisor.toNat < 2 ^ 127) (hn : 2 * n < divisor.toNat * 2 ^ 128) :
    Divided divisor (2 * n) (d.double divisor) := by
  have hwhole := h.whole
  have hrem := h.remainder_lt
  have hq' : (d.quotient <<< 1).toNat = 2 * d.quotient.toNat := toNat_shiftLeft_one (h.two_mul_quotient_lt hn)
  have hr' : (d.remainder <<< 1).toNat = 2 * d.remainder.toNat := toNat_shiftLeft_one (by omega)
  apply carry
  · show (d.quotient <<< 1).toNat * divisor.toNat + (d.remainder <<< 1).toNat = 2 * n
    rw [hq', hr', Nat.mul_assoc]
    omega
  · show (d.remainder <<< 1).toNat < 2 * divisor.toNat
    omega
  · exact hn

theorem add (h : Divided divisor n d) (ha : a.toNat < divisor.toNat) (hdiv : divisor.toNat < 2 ^ 127)
    (hn : n + a.toNat < divisor.toNat * 2 ^ 128) : Divided divisor (n + a.toNat) (d.add a divisor) := by
  have hwhole := h.whole
  have hrem := h.remainder_lt
  have hr' : (d.remainder + a).toNat = d.remainder.toNat + a.toNat := BitVec.toNat_add_of_lt (by omega)
  apply carry
  · show d.quotient.toNat * divisor.toNat + (d.remainder + a).toNat = n + a.toNat
    omega
  · show (d.remainder + a).toNat < 2 * divisor.toNat
    omega
  · exact hn

/-- A bit read doubles what has been divided, and adds `a` if it is set. -/
theorem read (h : Divided divisor (a.toNat * n) d) (ha : a.toNat < divisor.toNat) (hdiv : divisor.toNat < 2 ^ 127)
    (bit : Bool) (hn : 2 * n + bit.toNat < 2 ^ 128) :
    Divided divisor (a.toNat * (2 * n + bit.toNat)) (d.read a divisor bit) := by
  have hbound : a.toNat * (2 * n + bit.toNat) < divisor.toNat * 2 ^ 128 :=
    Nat.mul_lt_mul_of_lt_of_le ha (Nat.le_of_lt hn) (by decide)
  have hdouble : 2 * (a.toNat * n) = a.toNat * (2 * n) := Nat.mul_left_comm 2 a.toNat n
  cases bit with
  | false =>
    rw [Bool.toNat_false, Nat.add_zero] at hbound ⊢
    rw [← hdouble] at hbound ⊢
    exact h.double hdiv hbound
  | true =>
    rw [Bool.toNat_true, Nat.mul_add, Nat.mul_one, ← hdouble] at hbound ⊢
    exact (h.double hdiv (by omega)).add ha hdiv hbound

end Divided

/-! ### All bits -/

theorem divided_zero {a divisor : BitVec 128} (ha : a.toNat < divisor.toNat) : Divided divisor (a.toNat * 0) ⟨0, 0⟩ :=
  ⟨by simp, Nat.lt_of_le_of_lt (Nat.zero_le _) ha⟩

theorem divided_foldl {a divisor : BitVec 128} (ha : a.toNat < divisor.toNat) (hdiv : divisor.toNat < 2 ^ 127)
    (bits : List Bool) {n : Nat} {d : Division} (h : Divided divisor (a.toNat * n) d) (hn : spell n bits < 2 ^ 128) :
    Divided divisor (a.toNat * spell n bits) (bits.foldl (Division.read a divisor) d) := by
  induction bits generalizing n d with
  | nil => exact h
  | cons bit bits ih =>
    rw [spell_cons] at hn ⊢
    rw [List.foldl_cons]
    exact ih (h.read ha hdiv bit (Nat.lt_of_le_of_lt (le_spell _ bits) hn)) hn

theorem divided_longMulDiv {a b divisor : BitVec 128} (ha : a.toNat < divisor.toNat)
    (hdiv : divisor.toNat < 2 ^ 127) : Divided divisor (a.toNat * b.toNat) (longMulDiv a b divisor) := by
  have hrun := divided_foldl ha hdiv (bits b) (divided_zero ha)
  rw [spell_bits] at hrun
  exact hrun b.isLt

/-- The product of two words is divided exactly, be it formed or not. -/
theorem divided_mulDiv {a b divisor : BitVec 128} (ha : a.toNat < divisor.toNat) (hdiv : divisor.toNat < 2 ^ 127) :
    Divided divisor (a.toNat * b.toNat) (mulDiv a b divisor) := by
  unfold mulDiv
  split
  · exact divided_longMulDiv ha hdiv
  · rename_i hfits
    have hpos : 0 < divisor.toNat := Nat.lt_of_le_of_lt (Nat.zero_le _) ha
    have hprod : (a * b).toNat = a.toNat * b.toNat := BitVec.toNat_mul_of_not_umulOverflow hfits
    refine ⟨?_, ?_⟩
    · show (a * b / divisor).toNat * divisor.toNat + (a * b % divisor).toNat = a.toNat * b.toNat
      rw [BitVec.toNat_udiv, BitVec.toNat_umod, hprod]
      exact Nat.div_add_mod' _ _
    · show (a * b % divisor).toNat < divisor.toNat
      rw [BitVec.toNat_umod]
      exact Nat.mod_lt _ hpos

end Allotment.Wide
