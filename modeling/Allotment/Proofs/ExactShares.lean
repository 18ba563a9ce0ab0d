import Allotment.LargestRemainder
import Allotment.Proofs.LongDivision

/-! The shares of a budget are exact: put together from a quotient of the budget and a division in words, they are
    the floor and the remainder of the rational share. This holds for every budget whose parts fit in 128 bits. What
    the floors leave over is then no deficit, and is less than the number of positive remainders or nothing. -/

namespace Allotment.LargestRemainder

/-! ### Sums of counts -/

theorem toNat_le_total {weights : List Cells} {weight : Cells} (h : weight ∈ weights) :
    weight.toNat ≤ Cells.total weights := by
  induction weights with
  | nil => cases h
  | cons first weights ih =>
    rw [Cells.total_cons]
    rcases List.mem_cons.mp h with rfl | h
    · exact Nat.le_add_right _ _
    · exact Nat.le_trans (ih h) (Nat.le_add_left _ _)

/-! ### Sums that wrap round -/

/-- The units that the floors leave over, in unbounded integers. -/
def exactLeftover (budget : Int) (shares : List Share) : Int := budget - (shares.map (·.floor)).sum

/-- A sum that wraps round on the way ends where the exact sum wraps round to. -/
theorem foldl_wrap (shares : List Share) (start : Int) :
    shares.foldl (fun sum share => Wide.wrap (sum + share.floor)) (Wide.wrap start) =
      Wide.wrap (start + (shares.map (·.floor)).sum) := by
  induction shares generalizing start with
  | nil => rw [List.foldl_nil, List.map_nil, List.sum_nil, add_zero]
  | cons share shares ih =>
    rw [List.foldl_cons, add_comm, Wide.wrap_add_wrap, ih, List.map_cons, List.sum_cons, add_comm share.floor,
      add_assoc]

theorem floors_eq_wrap (shares : List Share) : floors shares = Wide.wrap (shares.map (·.floor)).sum := by
  have h := foldl_wrap shares 0
  rwa [Wide.wrap_of_mem (by decide) (by decide), zero_add] at h

/-- The wraps cancel: what is left over is exact where it fits, whether or not the sum of the floors does. -/
theorem leftover_eq {budget : Int} {shares : List Share} (hlow : Wide.least ≤ exactLeftover budget shares)
    (hhigh : exactLeftover budget shares ≤ Wide.greatest) :
    leftover budget shares = exactLeftover budget shares := by
  rw [leftover, floors_eq_wrap, Wide.wrap_sub_wrap]
  exact Wide.wrap_of_mem hlow hhigh

/-! ### One share -/

/-- The budget can be shared among weights of the sum `sum`: every part of it is a number of 128 bits. -/
structure InRange (budget : Int) (sum : Nat) : Prop where
  sum_pos : 0 < sum
  sum_le : (sum : Int) ≤ Wide.greatest
  low : Wide.least + sum ≤ budget + 1
  high : budget ≤ Wide.greatest

/-- The share of `weight` in unbounded integers. -/
def Share.exact (budget : Int) (sum place : Nat) (weight : Cells) : Share where
  place := place
  floor := budget * weight.toNat / sum
  remainder := (budget * weight.toNat % sum).toNat

namespace InRange
variable {budget : Int} {sum : Nat}

theorem of_bounds (hpos : 0 < sum) (hlt : sum < 2 ^ 127) (hlow : -2 ^ 127 + sum - 1 ≤ budget)
    (hhigh : budget ≤ 2 ^ 127 - 1) : InRange budget sum := by
  refine ⟨hpos, ?_, ?_, ?_⟩ <;> simp only [Wide.least, Wide.greatest] <;> omega

theorem of_nonneg (hpos : 0 < sum) (hlt : sum < 2 ^ 127) (hbudget : 0 ≤ budget) (hhigh : budget ≤ Wide.greatest) :
    InRange budget sum :=
  of_bounds hpos hlt (by omega) hhigh

theorem sum_lt (h : InRange budget sum) : sum < 2 ^ 127 := by
  have := h.sum_le
  rw [Wide.greatest] at this
  omega

/-- The product of the quotient and a weight is no lower than what is next below the budget in whole sums. -/
theorem le_quotient_mul (h : InRange budget sum) {weight : Nat} (hw : weight ≤ sum) :
    Wide.least ≤ budget / sum * weight := by
  have hpos : (0 : Int) < sum := by exact_mod_cast h.sum_pos
  have hw' : (weight : Int) ≤ sum := by exact_mod_cast hw
  have hlow := h.low
  rcases le_or_gt 0 (budget / sum) with hq | hq
  · have hge : 0 ≤ budget / sum * (weight : Int) := mul_nonneg hq (Int.natCast_nonneg weight)
    have : Wide.least ≤ 0 := by decide
    omega
  · have hge : budget / sum * sum ≤ budget / sum * weight := mul_le_mul_of_nonpos_left hw' hq.le
    have hdiv := Int.mul_ediv_add_emod budget sum
    have hmod := Int.emod_lt_of_pos budget hpos
    rw [mul_comm] at hdiv
    omega

end InRange

section Bounds
variable {budget : Int} {sum weight : Nat}

/-- The product of the quotient and a weight does not exceed the budget, or 0 where the budget is a deficit. -/
theorem quotient_mul_le (hpos : 0 < sum) (hw : weight ≤ sum) : budget / sum * weight ≤ max budget 0 := by
  have hw' : (weight : Int) ≤ sum := by exact_mod_cast hw
  rcases le_or_gt 0 (budget / sum) with hq | hq
  · calc
      budget / sum * weight ≤ budget / sum * sum := mul_le_mul_of_nonneg_left hw' hq
      _ ≤ budget := Int.ediv_mul_le budget (by omega)
      _ ≤ max budget 0 := le_max_left budget 0
  · exact (mul_nonpos_of_nonpos_of_nonneg hq.le (Int.natCast_nonneg weight)).trans (le_max_right budget 0)

/-- No floor exceeds the budget, or 0 where the budget is a deficit. -/
theorem floor_le (hpos : 0 < sum) (hw : weight ≤ sum) : budget * weight / sum ≤ max budget 0 := by
  have hpos' : (0 : Int) < sum := by exact_mod_cast hpos
  rcases le_or_gt 0 budget with hb | hb
  · have hle : budget * (weight : Int) ≤ budget * sum := mul_le_mul_of_nonneg_left (by exact_mod_cast hw) hb
    have := Int.ediv_le_of_le_mul hpos' hle
    omega
  · have hle : budget * (weight : Int) ≤ 0 * sum := by
      rw [zero_mul]
      exact mul_nonpos_of_nonpos_of_nonneg hb.le (Int.natCast_nonneg _)
    have := Int.ediv_le_of_le_mul hpos' hle
    omega

end Bounds

theorem toNat_ofInt_of_lt {n : Int} (hn : 0 ≤ n) (hlt : n < 2 ^ 128) : (BitVec.ofInt 128 n).toNat = n.toNat := by
  rw [BitVec.toNat_ofInt, Int.emod_eq_of_lt hn (by exact_mod_cast hlt)]

theorem toNat_ofNat_of_lt {n : Nat} (hlt : n < 2 ^ 127) : (BitVec.ofNat 128 n).toNat = n := by
  rw [BitVec.toNat_ofNat, Nat.mod_eq_of_lt (by omega)]

section Division
variable {sum : Nat}

/-- The division that a share is put together from is that of the rest of the budget. -/
theorem divided_rest (hpos : 0 < sum) (hlt : sum < 2 ^ 127) (budget : Int) (weight : Cells) :
    Wide.Divided (BitVec.ofNat 128 sum) ((budget % sum).toNat * weight.toNat)
      (Wide.mulDiv (BitVec.ofInt 128 (budget % sum)) (BitVec.ofNat 128 weight.toNat) (BitVec.ofNat 128 sum)) := by
  have hpos' : (0 : Int) < sum := by exact_mod_cast hpos
  have hmod := Int.emod_lt_of_pos budget hpos'
  have hmod' := Int.emod_nonneg budget hpos'.ne'
  have hsum := toNat_ofNat_of_lt hlt
  have ha : (BitVec.ofInt 128 (budget % sum)).toNat = (budget % sum).toNat :=
    toNat_ofInt_of_lt hmod' (by omega)
  have hb : (BitVec.ofNat 128 weight.toNat).toNat = weight.toNat := by
    have := weight.toNat_lt
    exact toNat_ofNat_of_lt (by omega)
  rw [← ha, ← hb, BitVec.ofNat_toNat, BitVec.setWidth_eq]
  exact Wide.divided_mulDiv (by omega) (by omega)

/-- A share in whole sums of the budget, and the share of what they leave. -/
theorem mul_ediv_emod (budget : Int) (hpos : 0 < sum) (weight : Nat) :
    budget * weight / sum = budget / sum * weight + (((budget % sum).toNat * weight / sum : Nat) : Int) ∧
      budget * weight % sum = (((budget % sum).toNat * weight % sum : Nat) : Int) := by
  have hne : (sum : Int) ≠ 0 := by exact_mod_cast hpos.ne'
  have hrest : (((budget % sum).toNat * weight : Nat) : Int) = budget % sum * weight := by
    rw [Nat.cast_mul, Int.toNat_of_nonneg (Int.emod_nonneg budget hne)]
  have hproduct : budget * weight = budget % sum * weight + sum * (budget / sum * weight) := by
    conv_lhs => rw [← Int.emod_add_mul_ediv budget sum]
    ring
  constructor
  · rw [hproduct, Int.add_mul_ediv_left _ _ hne, Int.natCast_div, hrest, add_comm]
  · rw [hproduct, Int.add_mul_emod_self_left, Int.natCast_mod, hrest]

/-- For every budget a share is the exact one, but for the ends of the range of its floor. -/
theorem Share.of_eq (hpos : 0 < sum) (hlt : sum < 2 ^ 127) (budget : Int) (place : Nat) (weight : Cells) :
    Share.of budget sum place weight =
      { place
        floor := Wide.clamp (Wide.clamp (budget / sum * weight.toNat) +
          ((budget % sum).toNat * weight.toNat / sum : Nat))
        remainder := (budget * weight.toNat % sum).toNat } := by
  have hdivided := divided_rest hpos hlt budget weight
  have hquotient := hdivided.quotient_eq
  have hremainder := hdivided.remainder_eq
  rw [toNat_ofNat_of_lt hlt] at hquotient hremainder
  have hmod := (mul_ediv_emod budget hpos weight.toNat).2
  unfold Share.of
  simp only [hquotient, hremainder, hmod, Int.toNat_natCast]

end Division

theorem Share.of_eq_exact {budget : Int} {sum : Nat} (h : InRange budget sum) (place : Nat) {weight : Cells}
    (hw : weight.toNat ≤ sum) : Share.of budget sum place weight = Share.exact budget sum place weight := by
  have hfloor := (mul_ediv_emod budget h.sum_pos weight.toNat).1
  -- Neither sum leaves the range, so that clamping changes neither.
  have hlow := h.le_quotient_mul hw
  have hhigh : budget / sum * weight.toNat ≤ max budget 0 := quotient_mul_le h.sum_pos hw
  have hgreatest : max budget 0 ≤ Wide.greatest := max_le h.high (by decide)
  have hclamp : Wide.clamp (budget / sum * weight.toNat) = budget / sum * weight.toNat :=
    Wide.clamp_of_mem hlow (hhigh.trans hgreatest)
  have hclamp' : Wide.clamp (budget * weight.toNat / sum) = budget * weight.toNat / sum := by
    refine Wide.clamp_of_mem ?_ ((floor_le h.sum_pos hw).trans hgreatest)
    rw [hfloor]
    exact hlow.trans (le_add_of_nonneg_right (Int.natCast_nonneg _))
  rw [Share.of_eq h.sum_pos h.sum_lt, hclamp, ← hfloor, hclamp', Share.exact]

/-! ### All shares -/

/-- The shares of all weights in unbounded integers. -/
def exactShares (budget : Int) (weights : List Cells) : List Share :=
  weights.mapIdx (Share.exact budget (Cells.total weights))

theorem shares_eq_exactShares {budget : Int} {weights : List Cells} (h : InRange budget (Cells.total weights)) :
    shares budget weights = exactShares budget weights := by
  apply List.ext_getElem
  · simp [shares, exactShares]
  · intro i hi _
    simp only [shares, exactShares, List.getElem_mapIdx]
    exact Share.of_eq_exact h i (toNat_le_total (List.getElem_mem _))

theorem length_shares (budget : Int) (weights : List Cells) : (shares budget weights).length = weights.length := by
  rw [shares, List.length_mapIdx]

theorem map_place_shares (budget : Int) (weights : List Cells) :
    (shares budget weights).map (·.place) = List.range weights.length := by
  apply List.ext_getElem
  · simp [shares]
  · intro i _ _
    simp [shares, Share.of]

theorem nodup_place_shares (budget : Int) (weights : List Cells) : ((shares budget weights).map (·.place)).Nodup := by
  rw [map_place_shares]
  exact List.nodup_range

/-- The shares divide the budget: floors and remainders account for all of it, and no two shares have one place. -/
structure Splits (budget : Int) (sum : Nat) (shares : List Share) : Prop where
  balance : (shares.map (·.floor)).sum * sum + ((shares.map (·.remainder)).sum : Nat) = budget * sum
  remainder_lt : ∀ share ∈ shares, share.remainder < sum
  places : (shares.map (·.place)).Nodup

theorem map_place_exactShares (budget : Int) (weights : List Cells) :
    (exactShares budget weights).map (·.place) = List.range weights.length := by
  apply List.ext_getElem
  · simp [exactShares]
  · intro i _ _
    simp [exactShares, Share.exact]

theorem balance_mapIdx (budget : Int) {sum : Nat} (hpos : 0 < sum) (weights : List Cells) (start : Nat) :
    ((weights.mapIdx fun i => Share.exact budget sum (start + i)).map (·.floor)).sum * sum +
      (((weights.mapIdx fun i => Share.exact budget sum (start + i)).map (·.remainder)).sum : Nat) =
        budget * Cells.total weights := by
  induction weights generalizing start with
  | nil => simp
  | cons weight weights ih =>
    have hnonneg := Int.emod_nonneg (budget * weight.toNat) (b := sum) (by omega)
    have hdiv := Int.mul_ediv_add_emod (budget * weight.toNat) sum
    have hrest := ih (start + 1)
    simp only [List.mapIdx_cons, List.map_cons, List.sum_cons, Nat.cast_add, Cells.total_cons, add_mul,
      mul_add, Share.exact, Int.toNat_of_nonneg hnonneg, Nat.add_assoc, Nat.add_comm 1] at hrest ⊢
    linarith

theorem splits_exactShares (budget : Int) {weights : List Cells} (hpos : 0 < Cells.total weights) :
    Splits budget (Cells.total weights) (exactShares budget weights) where
  balance := by
    have h := balance_mapIdx budget hpos weights 0
    simp only [Nat.zero_add] at h
    exact h
  remainder_lt := by
    intro share hshare
    obtain ⟨i, hi, rfl⟩ := List.mem_mapIdx.mp hshare
    have hlt := Int.emod_lt_of_pos (budget * weights[i].toNat) (b := Cells.total weights) (by exact_mod_cast hpos)
    simp only [Share.exact]
    omega
  places := by
    rw [map_place_exactShares]
    exact List.nodup_range

namespace Splits
variable {budget : Int} {sum : Nat} {shares : List Share}

theorem exactLeftover_mul (h : Splits budget sum shares) :
    exactLeftover budget shares * sum = ((shares.map (·.remainder)).sum : Nat) := by
  have := h.balance
  rw [exactLeftover, sub_mul]
  omega

/-- The floors never take more than the budget. -/
theorem exactLeftover_nonneg (h : Splits budget sum shares) (hpos : 0 < sum) : 0 ≤ exactLeftover budget shares := by
  have hmul := h.exactLeftover_mul
  by_contra hneg
  have hlt : exactLeftover budget shares * (sum : Int) < 0 := mul_neg_of_neg_of_pos (by omega) (by exact_mod_cast hpos)
  omega

theorem sum_remainder_le (h : Splits budget sum shares) :
    (shares.map (·.remainder)).sum ≤ shares.countP (0 < ·.remainder) * (sum - 1) := by
  have hlt := h.remainder_lt
  clear h
  induction shares with
  | nil => simp
  | cons share shares ih =>
    have hrest := ih fun s hs => hlt s (List.mem_cons_of_mem _ hs)
    have hfirst := hlt share List.mem_cons_self
    rw [List.map_cons, List.sum_cons, List.countP_cons]
    by_cases hzero : 0 < share.remainder
    · simp only [hzero, decide_true, if_true, Nat.add_mul, Nat.one_mul]
      omega
    · simp only [hzero, decide_false, Bool.false_eq_true, if_false, Nat.add_zero]
      omega

/-- What is left over suffices for one unit on fewer shares than have a remainder, or is nothing. -/
theorem exactLeftover_lt (h : Splits budget sum shares) (hpos : 0 < sum) (hsome : 0 < exactLeftover budget shares) :
    (exactLeftover budget shares).toNat < shares.countP (0 < ·.remainder) := by
  have hmul := h.exactLeftover_mul
  have hle := h.sum_remainder_le
  have hnat : (exactLeftover budget shares).toNat * sum = (shares.map (·.remainder)).sum := by
    zify
    rw [Int.toNat_of_nonneg hsome.le, hmul]
    simp
  by_contra hge
  have hmore := Nat.mul_le_mul_right (sum - 1) (Nat.le_of_not_lt hge)
  have hfew : (exactLeftover budget shares).toNat * (sum - 1) < (exactLeftover budget shares).toNat * sum :=
    Nat.mul_lt_mul_of_pos_left (by omega) (by omega)
  omega

theorem exactLeftover_le (h : Splits budget sum shares) (hpos : 0 < sum) :
    (exactLeftover budget shares).toNat ≤ shares.countP (0 < ·.remainder) := by
  rcases le_or_gt (exactLeftover budget shares) 0 with hzero | hsome
  · rw [Int.toNat_of_nonpos hzero]
    exact Nat.zero_le _
  · exact (h.exactLeftover_lt hpos hsome).le

end Splits

/-! ### What is left over -/

/-- A weight has less than itself in remainders of whole sums. -/
theorem exact_remainder_le {sum : Nat} (hpos : 0 < sum) (budget : Int) (place : Nat) (weight : Cells) :
    (Share.exact budget sum place weight).remainder ≤ (sum - 1) * weight.toNat := by
  have hlt := Int.emod_lt_of_pos (budget * weight.toNat) (b := sum) (by omega)
  show (budget * weight.toNat % sum).toNat ≤ (sum - 1) * weight.toNat
  rcases Nat.eq_zero_or_pos weight.toNat with hzero | hsome
  · rw [hzero, Nat.cast_zero, mul_zero, Int.zero_emod, Int.toNat_zero]
    exact Nat.zero_le _
  · have := Nat.le_mul_of_pos_right (sum - 1) hsome
    omega

theorem sum_remainder_mapIdx_le {sum : Nat} (hpos : 0 < sum) (budget : Int) (weights : List Cells) (start : Nat) :
    ((weights.mapIdx fun i => Share.exact budget sum (start + i)).map (·.remainder)).sum ≤
      (sum - 1) * Cells.total weights := by
  induction weights generalizing start with
  | nil => exact Nat.zero_le _
  | cons weight weights ih =>
    have hfirst : (Share.exact budget sum (start + 0) weight).remainder ≤ (sum - 1) * weight.toNat :=
      exact_remainder_le hpos budget (start + 0) weight
    have hrest := ih (start + 1)
    rw [List.mapIdx_cons, List.map_cons, List.sum_cons, Cells.total_cons, Nat.mul_add]
    simp only [Nat.add_assoc, Nat.add_comm 1] at hrest
    exact Nat.add_le_add hfirst hrest

/-- What the floors leave over is less than the sum of the weights. -/
theorem exactLeftover_exactShares_lt {budget : Int} {weights : List Cells} (hpos : 0 < Cells.total weights) :
    exactLeftover budget (exactShares budget weights) < Cells.total weights := by
  have hmul := (splits_exactShares budget hpos).exactLeftover_mul
  have hle := sum_remainder_mapIdx_le hpos budget weights 0
  simp only [Nat.zero_add] at hle
  have hless : (Cells.total weights - 1) * Cells.total weights < Cells.total weights * Cells.total weights :=
    Nat.mul_lt_mul_of_pos_right (by omega) hpos
  refine lt_of_mul_lt_mul_right (a := (Cells.total weights : Int)) ?_ (by omega)
  rw [hmul]
  exact_mod_cast Nat.lt_of_le_of_lt hle hless

end Allotment.LargestRemainder
