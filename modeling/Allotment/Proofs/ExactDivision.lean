import Allotment.Proofs.CheckedNumbers

/-! Multiplying, then dividing gives the exact quotient and remainder of the product in either way: at once, or while the
    multiplier is read bit by bit. Before the bit at a position is read, what has been divided is `a` times the number
    that the bits above it spell; its remainder is below the divisor, and stays so after the doubling and after the
    addition. With a divisor below half a word there is room for both, and nothing leaves a word. -/

namespace Allotment.Wide

/-! ### Positions -/

theorem spell_append (n : Nat) (front back : List Bool) : spell n (front ++ back) = spell (spell n front) back :=
  List.foldl_append

theorem spell_eq_add (n : Nat) (bits : List Bool) : spell n bits = n * 2 ^ bits.length + spell 0 bits := by
  induction bits generalizing n with
  | nil => simp
  | cons bit bits ih =>
    rw [spell_cons, spell_cons, ih, ih (2 * 0 + bit.toNat), List.length_cons, pow_succ]
    ring

theorem spell_lt (bits : List Bool) : spell 0 bits < 2 ^ bits.length := by
  induction bits with
  | nil => exact Nat.one_pos
  | cons bit bits ih =>
    have hbit : bit.toNat * 2 ^ bits.length ≤ 1 * 2 ^ bits.length := Nat.mul_le_mul_right _ bit.toNat_le
    rw [spell_cons, spell_eq_add, Nat.mul_zero, Nat.zero_add, List.length_cons, pow_succ]
    omega

section Positions
variable {b : BitVec 128} {front back : List Bool} {bit : Bool}

theorem length_bits (b : BitVec 128) : (bits b).length = 128 - b.clz.toNat := by
  rw [bits, List.length_reverse, List.length_map, List.length_range]

theorem toNat_clz_le (b : BitVec 128) : b.clz.toNat ≤ 128 := BitVec.le_def.mp BitVec.clz_le

/-- The bits read so far spell the multiplier cut off below them. -/
theorem spell_front (h : bits b = front ++ back) : spell 0 front = b.toNat / 2 ^ back.length := by
  have hspell := spell_bits b
  rw [h, spell_append] at hspell
  rw [← hspell, spell_eq_add (spell 0 front) back, Nat.mul_comm, Nat.mul_add_div (Nat.two_pow_pos _),
    Nat.div_eq_of_lt (spell_lt back), Nat.add_zero]

/-- A bit stands as high in the multiplier as there are bits to be read after it. -/
theorem bit_eq_getLsbD (h : bits b = front ++ bit :: back) : bit = b.getLsbD back.length := by
  have hlength := length_bits b
  rw [h, List.length_append, List.length_cons] at hlength
  have hget : (bits b).reverse[back.length]? = some bit := by
    rw [h, List.reverse_append, List.reverse_cons, List.append_assoc,
      List.getElem?_append_right (by rw [List.length_reverse]), List.length_reverse, Nat.sub_self]
    rfl
  rw [bits, List.reverse_reverse, List.getElem?_map, List.getElem?_range (by omega)] at hget
  exact (Option.some.inj hget).symm

theorem div_two_pow_eq (b : BitVec 128) (position : Nat) :
    b.toNat / 2 ^ position = 2 * (b.toNat / 2 ^ (position + 1)) + (b.getLsbD position).toNat := by
  rw [BitVec.getLsbD, Nat.toNat_testBit, pow_succ, ← Nat.div_div_eq_div_mul]
  exact (Nat.div_add_mod _ 2).symm

end Positions

/-! ### A bit in its turn -/

theorem Divided.unique {divisor : BitVec 128} {n : Nat} {d e : Division} (hd : Divided divisor n d)
    (he : Divided divisor n e) : d = e := by
  have hquotient : d.quotient = e.quotient := BitVec.eq_of_toNat_eq (hd.quotient_eq.trans he.quotient_eq.symm)
  have hremainder : d.remainder = e.remainder := BitVec.eq_of_toNat_eq (hd.remainder_eq.trans he.remainder_eq.symm)
  cases d
  cases e
  rw [Division.mk.injEq]
  exact ⟨hquotient, hremainder⟩

/-- The bit of `b` at `position` is read after those above it: what has been divided before it, after the doubling and
    after it is divided exactly, with its remainder below the divisor, and no number on the way leaves a word. -/
structure ReadsBit (a b divisor : BitVec 128) (position : Nat) (bit : Bool) (d : Division) : Prop where
  position_lt : position < 128
  bit_eq : bit = b.getLsbD position
  before : Divided divisor (a.toNat * (b.toNat / 2 ^ (position + 1))) d
  doubled : Divided divisor (2 * (a.toNat * (b.toNat / 2 ^ (position + 1)))) (d.double divisor)
  after : Divided divisor (a.toNat * (b.toNat / 2 ^ position)) (d.read a divisor bit)
  checked : Checked.read a divisor d bit = some (d.read a divisor bit)

section Division
variable {a b divisor : BitVec 128} {front back : List Bool} {bit : Bool}

theorem divided_front (ha : a.toNat < divisor.toNat) (hdivisor : divisor.toNat < 2 ^ 127) (h : bits b = front ++ back) :
    Divided divisor (a.toNat * (b.toNat / 2 ^ back.length)) (front.foldl (Division.read a divisor) ⟨0, 0⟩) := by
  have hrun := divided_foldl ha hdivisor front (divided_zero ha)
  rw [spell_front h] at hrun
  exact hrun (Nat.lt_of_le_of_lt (Nat.div_le_self _ _) b.isLt)

theorem readsBit (ha : a.toNat < divisor.toNat) (hdivisor : divisor.toNat < 2 ^ 127)
    (h : bits b = front ++ bit :: back) :
    ReadsBit a b divisor back.length bit (front.foldl (Division.read a divisor) ⟨0, 0⟩) := by
  have hlength := length_bits b
  rw [h, List.length_append, List.length_cons] at hlength
  have hbit := bit_eq_getLsbD h
  have hnumber := div_two_pow_eq b back.length
  rw [← hbit] at hnumber
  have hbefore := divided_front ha hdivisor h
  rw [List.length_cons] at hbefore
  have hword : 2 * (b.toNat / 2 ^ (back.length + 1)) + bit.toNat < 2 ^ 128 :=
    hnumber ▸ Nat.lt_of_le_of_lt (Nat.div_le_self _ _) b.isLt
  -- The doubling alone divides less than a whole word times the divisor.
  have htwice : 2 * (a.toNat * (b.toNat / 2 ^ (back.length + 1))) < divisor.toNat * 2 ^ 128 := by
    rw [Nat.mul_left_comm]
    exact Nat.mul_lt_mul_of_lt_of_le ha (by omega) (by decide)
  have hafter := hbefore.read ha hdivisor bit hword
  rw [← hnumber] at hafter
  exact
    { position_lt := by omega
      bit_eq := hbit
      before := hbefore
      doubled := hbefore.double hdivisor htwice
      after := hafter
      checked := Checked.read_eq hbefore ha hdivisor bit hword }

/-- Multiplying, then dividing is exact for a divisor below half a word, whether or not the product fits a word. Reading
    the multiplier bit by bit gives what dividing at once gives, with the remainder below the divisor at every step, and
    nothing on the way leaves a word. -/
theorem mulDiv_exact (a b divisor : BitVec 128) (ha : a < divisor) (hdivisor : divisor.toNat < 2 ^ 127) :
    (mulDiv a b divisor).quotient.toNat = a.toNat * b.toNat / divisor.toNat ∧
      (mulDiv a b divisor).remainder.toNat = a.toNat * b.toNat % divisor.toNat ∧
      longMulDiv a b divisor = mulDiv a b divisor ∧
      (bits b).foldlM (Checked.read a divisor) ⟨0, 0⟩ = some (mulDiv a b divisor) ∧
      b.clz.toNat ≤ 128 ∧ (bits b).length = 128 - b.clz.toNat ∧
      ∀ (front back : List Bool) (bit : Bool), bits b = front ++ bit :: back →
        ReadsBit a b divisor back.length bit (front.foldl (Division.read a divisor) ⟨0, 0⟩) := by
  have hdivided := divided_mulDiv (b := b) ha hdivisor
  have hlong := (divided_longMulDiv (b := b) ha hdivisor).unique hdivided
  refine ⟨hdivided.quotient_eq, hdivided.remainder_eq, hlong, ?_, toNat_clz_le b, length_bits b,
    fun front back bit h => readsBit ha hdivisor h⟩
  rw [← hlong]
  exact Checked.foldlM_read_bits ha hdivisor b

end Division

/-- A product of 252 bits is divided without being formed. -/
theorem mulDiv_exact_wide :
    (0x3fffffffffffffffffffffffffffffff : BitVec 128) < 0x40000000000000000000000000000000 ∧
      (0x40000000000000000000000000000000 : BitVec 128).toNat < 2 ^ 127 ∧
      (0x3fffffffffffffffffffffffffffffff : BitVec 128).umulOverflow 0x3fffffffffffffffffffffffffffffff = true ∧
      (mulDiv 0x3fffffffffffffffffffffffffffffff 0x3fffffffffffffffffffffffffffffff
        0x40000000000000000000000000000000).quotient.toNat = 0x3ffffffffffffffffffffffffffffffe ∧
      (mulDiv 0x3fffffffffffffffffffffffffffffff 0x3fffffffffffffffffffffffffffffff
        0x40000000000000000000000000000000).remainder.toNat = 1 := by
  obtain ⟨hquotient, hremainder, -⟩ := mulDiv_exact 0x3fffffffffffffffffffffffffffffff
    0x3fffffffffffffffffffffffffffffff 0x40000000000000000000000000000000 (by decide) (by decide)
  exact ⟨by decide, by decide, by decide, hquotient.trans (by decide), hremainder.trans (by decide)⟩

end Allotment.Wide
