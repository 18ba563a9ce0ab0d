import Allotment.Cells
import Allotment.Proofs.LongDivision

/-! Arithmetic that stops. A number is computed exactly and then has to fit its type; where it does not there is no
    result. Sums of numbers of one sign fit if their end does, and dividing a product by a divisor below half a word
    never leaves the word: what is checked here is what is computed elsewhere, with nothing cut off. -/

namespace Allotment.Checked

/-! ### Numbers that fit -/

/-- A signed number of 128 bits. -/
def signed (n : Int) : Option Int := if Wide.least ≤ n ∧ n ≤ Wide.greatest then some n else none

/-- An unsigned number of 128 bits. -/
def word (n : Int) : Option (BitVec 128) := if 0 ≤ n ∧ n < 2 ^ 128 then some (BitVec.ofInt 128 n) else none

/-- A number of cells. -/
def count (n : Int) : Option Cells := if 0 ≤ n ∧ n ≤ Cells.most then some (Cells.nearest n) else none

theorem signed_of_mem {n : Int} (hl : Wide.least ≤ n) (hg : n ≤ Wide.greatest) : signed n = some n :=
  if_pos ⟨hl, hg⟩

theorem signed_natCast {n : Nat} (h : (n : Int) ≤ Wide.greatest) : signed n = some (n : Int) :=
  signed_of_mem (Int.le_trans (by decide) (Int.natCast_nonneg n)) h

theorem word_of_mem {n : Int} (h0 : 0 ≤ n) (h : n < 2 ^ 128) : word n = some (BitVec.ofInt 128 n) := if_pos ⟨h0, h⟩

theorem word_natCast {n : Nat} (h : n < 2 ^ 128) : word n = some (BitVec.ofNat 128 n) := by
  rw [word_of_mem (Int.natCast_nonneg n) (by exact_mod_cast h), BitVec.ofInt_natCast]

theorem word_toNat (x : BitVec 128) : word x.toNat = some x := by
  rw [word_natCast x.isLt, BitVec.ofNat_toNat, BitVec.setWidth_eq]

theorem count_of_mem {n : Int} (h0 : 0 ≤ n) (h : n ≤ Cells.most) : count n = some (Cells.nearest n) := if_pos ⟨h0, h⟩

/-! ### Sums -/

/-- The sum of signed numbers, each sum on the way to it checked. -/
def sum (numbers : List Int) : Option Int := numbers.foldlM (fun sum n => signed (sum + n)) 0

/-- Numbers of one sign lead straight from one end of their sums to the other. -/
theorem foldlM_signed {numbers : List Int} (hsign : (∀ n ∈ numbers, 0 ≤ n) ∨ ∀ n ∈ numbers, n ≤ 0) {start : Int}
    (hstart : Wide.least ≤ start ∧ start ≤ Wide.greatest)
    (hend : Wide.least ≤ start + numbers.sum ∧ start + numbers.sum ≤ Wide.greatest) :
    numbers.foldlM (fun sum n => signed (sum + n)) start = some (start + numbers.sum) := by
  induction numbers generalizing start with
  | nil =>
    rw [List.sum_nil, Int.add_zero]
    rfl
  | cons n numbers ih =>
    rw [List.sum_cons] at hend ⊢
    have hmem : Wide.least ≤ start + n ∧ start + n ≤ Wide.greatest := by
      rcases hsign with hsign | hsign
      · have hfirst := hsign n List.mem_cons_self
        have hrest := List.sum_nonneg fun m hm => hsign m (List.mem_cons_of_mem n hm)
        omega
      · have hfirst := hsign n List.mem_cons_self
        have hrest := List.sum_le_card_nsmul numbers 0 fun m hm => hsign m (List.mem_cons_of_mem n hm)
        rw [nsmul_zero] at hrest
        omega
    have hrest : (∀ m ∈ numbers, 0 ≤ m) ∨ ∀ m ∈ numbers, m ≤ 0 :=
      hsign.imp (fun h m hm => h m (List.mem_cons_of_mem n hm)) fun h m hm => h m (List.mem_cons_of_mem n hm)
    rw [List.foldlM_cons, signed_of_mem hmem.1 hmem.2]
    simp only [Option.bind_eq_bind, Option.bind_some]
    rw [ih hrest hmem (by omega), Int.add_assoc]

theorem sum_of_sign {numbers : List Int} (hsign : (∀ n ∈ numbers, 0 ≤ n) ∨ ∀ n ∈ numbers, n ≤ 0)
    (hlow : Wide.least ≤ numbers.sum) (hhigh : numbers.sum ≤ Wide.greatest) : sum numbers = some numbers.sum := by
  have h := foldlM_signed hsign (show Wide.least ≤ 0 ∧ 0 ≤ Wide.greatest by decide) (by omega)
  rwa [Int.zero_add] at h

theorem foldlM_eq_some {numbers : List Int} {start n : Int} (hstart : Wide.least ≤ start)
    (h : numbers.foldlM (fun sum n => signed (sum + n)) start = some n) :
    n = start + numbers.sum ∧ Wide.least ≤ n := by
  induction numbers generalizing start with
  | nil =>
    cases h
    exact ⟨(Int.add_zero _).symm, hstart⟩
  | cons first numbers ih =>
    rw [List.foldlM_cons, signed] at h
    split at h
    · rename_i hfits
      obtain ⟨rfl, hlow⟩ := ih hfits.1 h
      exact ⟨by rw [List.sum_cons, Int.add_assoc], hlow⟩
    · cases h

/-- A sum that has a result is exact, and fits. -/
theorem sum_eq_some {numbers : List Int} {n : Int} (h : sum numbers = some n) :
    n = numbers.sum ∧ Wide.least ≤ n := by
  have hsum := foldlM_eq_some (show Wide.least ≤ 0 by decide) h
  rwa [Int.zero_add] at hsum

theorem sum_toNat {counts : List Cells} (h : (Cells.total counts : Int) ≤ Wide.greatest) :
    sum (counts.map fun count => (count.toNat : Int)) = some (Cells.total counts : Int) := by
  have htotal : (counts.map fun count => (count.toNat : Int)).sum = (Cells.total counts : Int) := by
    induction counts with
    | nil => rfl
    | cons count counts ih =>
      rw [Cells.total_cons] at h
      rw [List.map_cons, List.sum_cons, ih (by omega), Cells.total_cons, Nat.cast_add]
  have hnonneg : ∀ n ∈ counts.map fun count => (count.toNat : Int), 0 ≤ n := fun n hn => by
    obtain ⟨count, -, rfl⟩ := List.mem_map.mp hn
    exact Int.natCast_nonneg _
  have hleast : Wide.least ≤ 0 := by decide
  rw [← htotal] at h ⊢
  exact sum_of_sign (Or.inl hnonneg) (hleast.trans (List.sum_nonneg hnonneg)) h

/-! ### Division -/

/-- Takes the divisor out of the remainder once, if it goes in. -/
def carry (divisor : BitVec 128) (d : Wide.Division) : Option Wide.Division :=
  if divisor ≤ d.remainder then do
    return ⟨← word (d.quotient.toNat + 1), ← word (d.remainder.toNat - divisor.toNat)⟩
  else some d

/-- Doubles what has been divided. -/
def double (divisor : BitVec 128) (d : Wide.Division) : Option Wide.Division := do
  carry divisor ⟨← word (2 * d.quotient.toNat), ← word (2 * d.remainder.toNat)⟩

/-- Adds `a` to what has been divided. -/
def add (a divisor : BitVec 128) (d : Wide.Division) : Option Wide.Division := do
  carry divisor ⟨d.quotient, ← word (d.remainder.toNat + a.toNat)⟩

/-- Reads one more bit of the multiplier. -/
def read (a divisor : BitVec 128) (d : Wide.Division) (bit : Bool) : Option Wide.Division := do
  let d ← double divisor d
  if bit then add a divisor d else return d

/-- Divides `a * b` by `divisor`, which must not be 0: at once where the product fits, else one bit of `b` at a time. -/
def mulDiv (a b divisor : BitVec 128) : Option Wide.Division :=
  if divisor = 0 then none
  else if a.toNat * b.toNat < 2 ^ 128 then do
    let product ← word (a.toNat * b.toNat)
    return ⟨product / divisor, product % divisor⟩
  else (Wide.bits b).foldlM (read a divisor) ⟨0, 0⟩

section Division
variable {a b divisor : BitVec 128} {n : Nat} {d : Wide.Division}

theorem carry_eq (hwhole : d.quotient.toNat * divisor.toNat + d.remainder.toNat = n)
    (hn : n < divisor.toNat * 2 ^ 128) : carry divisor d = some (d.carry divisor) := by
  unfold carry Wide.Division.carry
  split
  · rename_i hle
    have hle' : divisor.toNat ≤ d.remainder.toNat := hle
    have hquotient : ((d.quotient.toNat : Int) + 1) = ((d.quotient + 1).toNat : Nat) := by
      have hadd : (d.quotient + 1).toNat = d.quotient.toNat + 1 :=
        BitVec.toNat_add_of_lt (Wide.Divided.quotient_succ_lt hwhole hle' hn)
      omega
    have hremainder : (d.remainder.toNat : Int) - divisor.toNat = ((d.remainder - divisor).toNat : Nat) := by
      rw [BitVec.toNat_sub_of_le hle]
      omega
    rw [hquotient, hremainder, word_toNat, word_toNat]
    rfl
  · rfl

theorem double_eq (h : Wide.Divided divisor n d) (hdiv : divisor.toNat < 2 ^ 127)
    (hn : 2 * n < divisor.toNat * 2 ^ 128) : double divisor d = some (d.double divisor) := by
  have hwhole := h.whole
  have hrem := h.remainder_lt
  have hquotient := Wide.toNat_shiftLeft_one (h.two_mul_quotient_lt hn)
  have hremainder : (d.remainder <<< 1).toNat = 2 * d.remainder.toNat := Wide.toNat_shiftLeft_one (by omega)
  have hquotient' : (2 : Int) * d.quotient.toNat = ((d.quotient <<< 1).toNat : Nat) := by omega
  have hremainder' : (2 : Int) * d.remainder.toNat = ((d.remainder <<< 1).toNat : Nat) := by omega
  rw [double, hquotient', hremainder', word_toNat, word_toNat]
  refine carry_eq (n := 2 * n) ?_ hn
  show (d.quotient <<< 1).toNat * divisor.toNat + (d.remainder <<< 1).toNat = 2 * n
  rw [hquotient, hremainder, Nat.mul_assoc]
  omega

theorem add_eq (h : Wide.Divided divisor n d) (ha : a.toNat < divisor.toNat) (hdiv : divisor.toNat < 2 ^ 127)
    (hn : n + a.toNat < divisor.toNat * 2 ^ 128) : add a divisor d = some (d.add a divisor) := by
  have hwhole := h.whole
  have hrem := h.remainder_lt
  have hremainder : (d.remainder + a).toNat = d.remainder.toNat + a.toNat := BitVec.toNat_add_of_lt (by omega)
  have hremainder' : (d.remainder.toNat : Int) + a.toNat = ((d.remainder + a).toNat : Nat) := by omega
  rw [add, hremainder', word_toNat]
  refine carry_eq (n := n + a.toNat) ?_ hn
  show d.quotient.toNat * divisor.toNat + (d.remainder + a).toNat = n + a.toNat
  omega

/-- Reading a bit leaves no word. -/
theorem read_eq (h : Wide.Divided divisor (a.toNat * n) d) (ha : a.toNat < divisor.toNat)
    (hdiv : divisor.toNat < 2 ^ 127) (bit : Bool) (hn : 2 * n + bit.toNat < 2 ^ 128) :
    read a divisor d bit = some (d.read a divisor bit) := by
  have hbound : a.toNat * (2 * n + bit.toNat) < divisor.toNat * 2 ^ 128 :=
    Nat.mul_lt_mul_of_lt_of_le ha (Nat.le_of_lt hn) (by decide)
  have hdouble : 2 * (a.toNat * n) = a.toNat * (2 * n) := Nat.mul_left_comm 2 a.toNat n
  rw [Nat.mul_add, ← hdouble] at hbound
  have htwice : 2 * (a.toNat * n) < divisor.toNat * 2 ^ 128 := Nat.lt_of_le_of_lt (Nat.le_add_right _ _) hbound
  simp only [read, double_eq h hdiv htwice, Option.bind_eq_bind, Option.bind_some, Wide.Division.read]
  cases bit with
  | false => rfl
  | true =>
    rw [Bool.toNat_true, Nat.mul_one] at hbound
    exact add_eq (h.double hdiv htwice) ha hdiv hbound

theorem foldlM_read (ha : a.toNat < divisor.toNat) (hdiv : divisor.toNat < 2 ^ 127) (bits : List Bool)
    (h : Wide.Divided divisor (a.toNat * n) d) (hn : Wide.spell n bits < 2 ^ 128) :
    bits.foldlM (read a divisor) d = some (bits.foldl (Wide.Division.read a divisor) d) := by
  induction bits generalizing n d with
  | nil => rfl
  | cons bit bits ih =>
    rw [Wide.spell_cons] at hn
    have hbit : 2 * n + bit.toNat < 2 ^ 128 := Nat.lt_of_le_of_lt (Wide.le_spell _ bits) hn
    rw [List.foldlM_cons, List.foldl_cons, read_eq h ha hdiv bit hbit]
    exact ih (h.read ha hdiv bit hbit) hn

theorem foldlM_read_bits (ha : a.toNat < divisor.toNat) (hdiv : divisor.toNat < 2 ^ 127) (b : BitVec 128) :
    (Wide.bits b).foldlM (read a divisor) ⟨0, 0⟩ = some (Wide.longMulDiv a b divisor) := by
  refine foldlM_read ha hdiv (Wide.bits b) (Wide.divided_zero ha) ?_
  rw [Wide.spell_bits]
  exact b.isLt

/-- Dividing a product by a divisor below half a word stays within words. -/
theorem mulDiv_eq (ha : a.toNat < divisor.toNat) (hdiv : divisor.toNat < 2 ^ 127) (b : BitVec 128) :
    mulDiv a b divisor = some (Wide.mulDiv a b divisor) := by
  have hne : divisor ≠ 0 := by
    rintro rfl
    exact Nat.not_lt_zero _ ha
  rw [mulDiv, if_neg hne, Wide.mulDiv]
  by_cases hfits : a.toNat * b.toNat < 2 ^ 128
  · have hno : ¬a.umulOverflow b = true := by
      rw [BitVec.umulOverflow, decide_eq_true_eq]
      omega
    have hproduct : (a.toNat : Int) * b.toNat = ((a * b).toNat : Nat) := by
      rw [BitVec.toNat_mul_of_not_umulOverflow hno, Nat.cast_mul]
    rw [if_pos hfits, if_neg hno, hproduct, word_toNat]
    rfl
  · have hover : a.umulOverflow b = true := by
      rw [BitVec.umulOverflow, decide_eq_true_eq]
      omega
    rw [if_neg hfits, if_pos hover]
    exact foldlM_read_bits ha hdiv b

end Division
end Allotment.Checked
