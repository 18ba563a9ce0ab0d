import Allotment.Proofs.CheckedParts

/-! Budgets next to the least number. The floor of a share is put together from the product of a quotient and a weight.
    That product may lie below the least number of 128 bits although the floor does not; it stops there, and the floor
    comes out too high. The units that are left over make up for what the floors have too much. Where they do not
    suffice, the parts add up to more than the budget.

    The sum of the floors may lie below the least number as well. It then wraps round, and what is left over wraps back;
    arithmetic that does not wrap has no result there. -/

namespace Allotment
namespace LargestRemainder

/-! ### Floors that are too high -/

/-- What the product of the quotient and a weight lacks to the least number. -/
def shortfall (budget : Int) (sum : Nat) (weight : Cells) : Int :=
  max 0 (Wide.least - budget / sum * weight.toNat)

/-- What the floors of all shares have too much. -/
def surplus (budget : Int) (weights : List Cells) : Int :=
  (weights.map (shortfall budget (Cells.total weights))).sum

section Share
variable {budget : Int} {sum : Nat} {weight : Cells}

theorem clamp_quotient_mul (hpos : 0 < sum) (hhigh : budget ≤ Wide.greatest) (hw : weight.toNat ≤ sum) :
    Wide.clamp (budget / sum * weight.toNat) = budget / sum * weight.toNat + shortfall budget sum weight := by
  have hle : budget / sum * weight.toNat ≤ max budget 0 := quotient_mul_le hpos hw
  have hgreatest : max budget 0 ≤ Wide.greatest := max_le hhigh (by decide)
  rw [Wide.clamp, shortfall, min_eq_left (hle.trans hgreatest)]
  omega

/-- The share of what whole sums leave of the budget does not exceed the weight. -/
theorem rest_le (hpos : 0 < sum) (budget : Int) (weight : Cells) :
    (budget % sum).toNat * weight.toNat / sum ≤ weight.toNat := by
  have hrest : (budget % sum).toNat ≤ sum := by
    have := Int.emod_lt_of_pos budget (b := sum) (by omega)
    omega
  exact Nat.div_le_of_le_mul (Nat.mul_le_mul_right _ hrest)

/-- The share of a weight is the exact one with its product's shortfall on top of the floor. -/
theorem Share.of_eq_add_shortfall (hpos : 0 < sum) (hlt : sum < 2 ^ 127) (hhigh : budget ≤ Wide.greatest)
    (place : Nat) (hw : weight.toNat ≤ sum) :
    Share.of budget sum place weight =
      { Share.exact budget sum place weight with
        floor := budget * weight.toNat / sum + shortfall budget sum weight } := by
  have hfloor := (mul_ediv_emod budget hpos weight.toNat).1
  have hextra := rest_le hpos budget weight
  -- A product that stops at the least number leaves room above it for the rest.
  have hclamp : Wide.clamp (budget / sum * weight.toNat + shortfall budget sum weight +
      ((budget % sum).toNat * weight.toNat / sum : Nat)) =
        budget / sum * weight.toNat + shortfall budget sum weight +
          ((budget % sum).toNat * weight.toNat / sum : Nat) := by
    have hle : budget * (weight.toNat : Int) / sum ≤ max budget 0 := floor_le hpos hw
    have hgreatest : max budget 0 ≤ Wide.greatest := max_le hhigh (by decide)
    have hroom : Wide.least + (Cells.most : Int) ≤ Wide.greatest := by decide
    have hmost := Cells.toNat_le_most weight
    generalize (budget % sum).toNat * weight.toNat / sum = extra at *
    apply Wide.clamp_of_mem <;> rw [shortfall] <;> omega
  rw [Share.of_eq hpos hlt, clamp_quotient_mul hpos hhigh hw, hclamp, Share.exact, hfloor]
  simp only [Share.mk.injEq, true_and, and_true]
  omega

/-- Where the budget is a deficit so are the floors: a product that stops stops far below 0. -/
theorem floor_nonpos (hpos : 0 < sum) (hlt : sum < 2 ^ 127) (hbudget : budget < 0) (place : Nat)
    (hw : weight.toNat ≤ sum) : (Share.of budget sum place weight).floor ≤ 0 := by
  have hle : budget * (weight.toNat : Int) / sum ≤ max budget 0 := floor_le hpos hw
  have hfloor := (mul_ediv_emod budget hpos weight.toNat).1
  have hextra := rest_le hpos budget weight
  have hroom : Wide.least + (Cells.most : Int) ≤ 0 := by decide
  have hmost := Cells.toNat_le_most weight
  have hhigh : budget ≤ Wide.greatest := hbudget.le.trans (by decide)
  rw [Share.of_eq_add_shortfall hpos hlt hhigh place hw, shortfall]
  show budget * (weight.toNat : Int) / sum + max 0 (Wide.least - budget / sum * weight.toNat) ≤ 0
  generalize (budget % sum).toNat * weight.toNat / sum = extra at *
  omega

theorem least_le_floor (budget : Int) (sum place : Nat) (weight : Cells) :
    Wide.least ≤ (Share.of budget sum place weight).floor := le_max_left _ _

/-- The products of parts fall short by no more than the product of all. -/
theorem sum_shortfall_le (budget : Int) (sum : Nat) (weights : List Cells) :
    (weights.map (shortfall budget sum)).sum ≤ max 0 (Wide.least - budget / sum * Cells.total weights) := by
  have hleast : Wide.least ≤ 0 := by decide
  induction weights with
  | nil => exact le_max_left 0 _
  | cons weight weights ih =>
    have hsign : budget / (sum : Int) * weight.toNat ≤ 0 ∧ budget / (sum : Int) * Cells.total weights ≤ 0 ∨
        0 ≤ budget / (sum : Int) * weight.toNat ∧ 0 ≤ budget / (sum : Int) * Cells.total weights := by
      rcases le_total (budget / (sum : Int)) 0 with hq | hq
      · exact Or.inl ⟨mul_nonpos_of_nonpos_of_nonneg hq (Int.natCast_nonneg _),
          mul_nonpos_of_nonpos_of_nonneg hq (Int.natCast_nonneg _)⟩
      · exact Or.inr ⟨mul_nonneg hq (Int.natCast_nonneg _), mul_nonneg hq (Int.natCast_nonneg _)⟩
    rw [List.map_cons, List.sum_cons, shortfall, Cells.total_cons, Nat.cast_add, mul_add]
    omega

end Share

theorem sum_floor_mapIdx_add {f g : Nat → Cells → Share} {u : Cells → Int} {weights : List Cells}
    (h : ∀ (i : Nat) (weight : Cells), weight ∈ weights → (f i weight).floor = (g i weight).floor + u weight) :
    ((weights.mapIdx f).map (·.floor)).sum = ((weights.mapIdx g).map (·.floor)).sum + (weights.map u).sum := by
  induction weights generalizing f g with
  | nil => rfl
  | cons weight weights ih =>
    have hrest := ih (f := fun i => f (i + 1)) (g := fun i => g (i + 1)) fun i w hw =>
      h (i + 1) w (List.mem_cons_of_mem _ hw)
    have hfirst := h 0 weight List.mem_cons_self
    simp only [List.mapIdx_cons, List.map_cons, List.sum_cons]
    rw [hrest, hfirst]
    omega

/-! ### All shares -/

section Shares
variable {budget : Int} {weights : List Cells}

theorem exactLeftover_shares (hpos : 0 < Cells.total weights) (hlt : Cells.total weights < 2 ^ 127)
    (hhigh : budget ≤ Wide.greatest) :
    exactLeftover budget (shares budget weights) = spare budget weights - surplus budget weights := by
  have hfloors : ((shares budget weights).map (·.floor)).sum =
      ((exactShares budget weights).map (·.floor)).sum + surplus budget weights :=
    sum_floor_mapIdx_add fun i weight hweight => by
      rw [Share.of_eq_add_shortfall hpos hlt hhigh i (toNat_le_total hweight)]
      rfl
  rw [← exactLeftover_exactShares, exactLeftover, exactLeftover, hfloors]
  omega

theorem surplus_nonneg (budget : Int) (weights : List Cells) : 0 ≤ surplus budget weights :=
  List.sum_nonneg fun n hn => by
    obtain ⟨weight, -, rfl⟩ := List.mem_map.mp hn
    exact le_max_left 0 _

theorem surplus_lt (hpos : 0 < Cells.total weights) (hlow : Wide.least ≤ budget) :
    surplus budget weights < Cells.total weights := by
  have hle := sum_shortfall_le budget (Cells.total weights) weights
  have hdiv := Int.mul_ediv_add_emod budget (Cells.total weights)
  have hmod := Int.emod_lt_of_pos budget (b := Cells.total weights) (by omega)
  rw [mul_comm] at hdiv
  rw [surplus]
  omega

/-- What is left over fits, also where the sum of the floors does not. -/
theorem exactLeftover_shares_mem (hpos : 0 < Cells.total weights) (hlt : Cells.total weights < 2 ^ 127)
    (hlow : Wide.least ≤ budget) (hhigh : budget ≤ Wide.greatest) :
    Wide.least ≤ exactLeftover budget (shares budget weights) ∧
      exactLeftover budget (shares budget weights) ≤ Wide.greatest := by
  have hless : exactLeftover budget (exactShares budget weights) < Cells.total weights :=
    exactLeftover_exactShares_lt hpos
  have hnonneg := (splits_exactShares budget hpos).exactLeftover_nonneg hpos
  have hsurplus := surplus_lt hpos hlow
  have hsurplus' := surplus_nonneg budget weights
  rw [exactLeftover_exactShares] at hless hnonneg
  rw [exactLeftover_shares hpos hlt hhigh, Wide.least, Wide.greatest]
  omega

theorem leftover_shares (hpos : 0 < Cells.total weights) (hlt : Cells.total weights < 2 ^ 127)
    (hlow : Wide.least ≤ budget) (hhigh : budget ≤ Wide.greatest) :
    leftover budget (shares budget weights) = exactLeftover budget (shares budget weights) := by
  obtain ⟨hleast, hgreatest⟩ := exactLeftover_shares_mem hpos hlt hlow hhigh
  exact leftover_eq hleast hgreatest

theorem exactLeftover_shares_le (hpos : 0 < Cells.total weights) (hlt : Cells.total weights < 2 ^ 127)
    (hhigh : budget ≤ Wide.greatest) :
    (exactLeftover budget (shares budget weights)).toNat ≤ (shares budget weights).length := by
  have hleft := exactLeftover_shares hpos hlt hhigh
  have hsurplus := surplus_nonneg budget weights
  have hle := (splits_exactShares budget hpos).exactLeftover_le_length hpos
  rw [exactLeftover_exactShares, exactShares, List.length_mapIdx] at hle
  rw [length_shares]
  omega

theorem parts_eq_served_shares (hpos : 0 < Cells.total weights) (hlt : Cells.total weights < 2 ^ 127)
    (hlow : Wide.least ≤ budget) (hhigh : budget ≤ Wide.greatest) :
    parts budget weights = (shares budget weights).map
      (Share.served (exactLeftover budget (shares budget weights)).toNat (shares budget weights)) :=
  parts_eq_map_served hpos (leftover_shares hpos hlt hlow hhigh) (exactLeftover_shares_le hpos hlt hhigh)

/-- The parts exceed the budget by what the units left over cannot make up for. -/
theorem sum_parts_eq_add (hpos : 0 < Cells.total weights) (hlt : Cells.total weights < 2 ^ 127)
    (hlow : Wide.least ≤ budget) (hhigh : budget ≤ Wide.greatest) :
    (parts budget weights).sum = budget + max 0 (surplus budget weights - spare budget weights) := by
  have hleft := exactLeftover_shares hpos hlt hhigh
  rw [parts_eq_served_shares hpos hlt hlow hhigh,
    sum_served (nodup_place_shares budget weights) (exactLeftover_shares_le hpos hlt hhigh)]
  rw [exactLeftover] at hleft ⊢
  omega

/-- A part is the floor of its share, or one unit more. -/
theorem floor_le_part (hpos : 0 < Cells.total weights) {weight : Cells} {part : Int}
    (h : (weight, part) ∈ weights.zip (parts budget weights)) :
    ∃ place, (Share.of budget (Cells.total weights) place weight).floor ≤ part := by
  obtain ⟨i, hi⟩ := List.mem_iff_getElem?.mp h
  obtain ⟨hweight, hpart⟩ := List.getElem?_zip_eq_some.mp hi
  refine ⟨i, ?_⟩
  rw [parts, if_neg hpos.ne'] at hpart
  dsimp only at hpart
  split at hpart
  · rw [List.getElem?_map, shares, List.getElem?_mapIdx, hweight] at hpart
    exact (Option.some.inj hpart).le
  · rw [List.getElem?_map, shares, List.getElem?_mapIdx, hweight] at hpart
    rw [← Option.some.inj hpart]
    dsimp only
    split
    · exact Int.le_add_one (le_refl _)
    · exact le_refl _

/-- Floors are too high or exact, but never too low. -/
theorem exactFloor_le_part (hpos : 0 < Cells.total weights) (hlt : Cells.total weights < 2 ^ 127)
    (hhigh : budget ≤ Wide.greatest) {weight : Cells} {part : Int}
    (h : (weight, part) ∈ weights.zip (parts budget weights)) :
    budget * weight.toNat / Cells.total weights ≤ part := by
  obtain ⟨place, hfloor⟩ := floor_le_part hpos h
  have hshort : 0 ≤ shortfall budget (Cells.total weights) weight := le_max_left 0 _
  rw [Share.of_eq_add_shortfall hpos hlt hhigh place (toNat_le_total (List.of_mem_zip h).1)] at hfloor
  exact (le_add_of_nonneg_right hshort).trans hfloor

/-- A budget whose parts all fit leaves no product short. -/
theorem surplus_eq_zero (h : InRange budget (Cells.total weights)) : surplus budget weights = 0 :=
  List.sum_eq_zero fun n hn => by
    obtain ⟨weight, hweight, rfl⟩ := List.mem_map.mp hn
    have hlow := h.le_quotient_mul (toNat_le_total hweight)
    exact max_eq_left (by omega)

/-- The floors may be too low in sum for the range, but not too high. -/
theorem sum_floors_le (hpos : 0 < Cells.total weights) (hlt : Cells.total weights < 2 ^ 127)
    (hlow : Wide.least ≤ budget) (hhigh : budget ≤ Wide.greatest) :
    ((shares budget weights).map (·.floor)).sum ≤ Wide.greatest := by
  have hleft := exactLeftover_shares hpos hlt hhigh
  have hnonneg := (splits_exactShares budget hpos).exactLeftover_nonneg hpos
  rw [exactLeftover_exactShares] at hnonneg
  rw [exactLeftover] at hleft
  rcases le_or_gt 0 budget with hbudget | hbudget
  · have hsurplus := surplus_eq_zero (.of_nonneg hpos hlt hbudget hhigh)
    omega
  · have hsurplus := surplus_lt hpos hlow
    have hgreatest : (2 : Int) ^ 127 ≤ Wide.greatest + 1 := by decide
    omega

end Shares
end LargestRemainder

/-! ### Arithmetic that does not wrap -/

namespace Checked
open LargestRemainder

/-- The units that the floors leave over, if neither the sum of the floors nor what is left over leaves the range. -/
def leftover (budget : Int) (shares : List Share) : Option Int := do
  signed (budget - (← sum (shares.map (·.floor))))

/-- The parts of `budget` in proportion to `weights`, not all of them 0, where products may stop at an end of the range,
    but no sum and no difference may leave it. -/
def unwrappedParts (budget : Int) (weights : List Cells) : Option (List Int) := do
  let shares := shares budget weights
  let units ← leftover budget shares
  (((shares.mergeSort Share.before).take units.toNat).map (·.place)).foldlM addUnit (shares.map (·.floor))

section Shares
variable {budget : Int} {weights : List Cells}

/-- The floors of a budget have one sign. -/
theorem sign_floors (hpos : 0 < Cells.total weights) (hlt : Cells.total weights < 2 ^ 127)
    (hhigh : budget ≤ Wide.greatest) :
    (∀ n ∈ (shares budget weights).map (·.floor), 0 ≤ n) ∨ ∀ n ∈ (shares budget weights).map (·.floor), n ≤ 0 := by
  rcases le_or_gt 0 budget with hbudget | hbudget
  · left
    rw [shares_eq_exactShares (.of_nonneg hpos hlt hbudget hhigh)]
    intro n hn
    obtain ⟨share, hshare, rfl⟩ := List.mem_map.mp hn
    obtain ⟨i, hi, rfl⟩ := List.mem_mapIdx.mp hshare
    exact exact_floor_nonneg hbudget i
  · right
    intro n hn
    obtain ⟨share, hshare, rfl⟩ := List.mem_map.mp hn
    obtain ⟨i, hi, rfl⟩ := List.mem_mapIdx.mp hshare
    exact floor_nonpos hpos hlt hbudget i (toNat_le_total (List.getElem_mem hi))

/-- The floors leave the range where they leave over more than the budget is above the least number. -/
theorem leftover_eq (hpos : 0 < Cells.total weights) (hlt : Cells.total weights < 2 ^ 127)
    (hlow : Wide.least ≤ budget) (hhigh : budget ≤ Wide.greatest) :
    leftover budget (shares budget weights) =
      if budget - Wide.least < exactLeftover budget (shares budget weights) then none
      else some (exactLeftover budget (shares budget weights)) := by
  have hsum := sum_floors_le hpos hlt hlow hhigh
  obtain ⟨hleast, hgreatest⟩ := exactLeftover_shares_mem hpos hlt hlow hhigh
  rw [exactLeftover] at hleast hgreatest
  rw [leftover, exactLeftover]
  by_cases hbelow : ((shares budget weights).map (·.floor)).sum < Wide.least
  · rw [if_pos (by omega)]
    cases hfloors : sum ((shares budget weights).map (·.floor)) with
    | none => rfl
    | some n =>
      obtain ⟨rfl, hfits⟩ := sum_eq_some hfloors
      exact absurd hfits (not_le.mpr hbelow)
  · rw [if_neg (by omega), sum_of_sign (sign_floors hpos hlt hhigh) (not_lt.mp hbelow) hsum]
    exact signed_of_mem hleast hgreatest

/-- The floors of those who are served have room for a unit. -/
theorem floor_of_served_shares (hpos : 0 < Cells.total weights) (hlt : Cells.total weights < 2 ^ 127)
    (hhigh : budget ≤ Wide.greatest) {i : Nat}
    (hi : i ∈ (((shares budget weights).mergeSort Share.before).take
      (exactLeftover budget (shares budget weights)).toNat).map (·.place)) :
    ∃ floor, ((shares budget weights).map (·.floor))[i]? = some floor ∧ Wide.least ≤ floor ∧ floor < Wide.greatest := by
  rcases le_or_gt 0 budget with hbudget | hbudget
  · have hrange : InRange budget (Cells.total weights) := .of_nonneg hpos hlt hbudget hhigh
    rw [shares_eq_exactShares hrange] at hi ⊢
    exact floor_of_served hrange hi
  · obtain ⟨share, htaken, rfl⟩ := List.mem_map.mp hi
    have hshare : share ∈ shares budget weights :=
      (List.mergeSort_perm _ Share.before).mem_iff.mp (List.mem_of_mem_take htaken)
    obtain ⟨i, hlt', rfl⟩ := List.mem_mapIdx.mp hshare
    have hfloor := floor_nonpos hpos hlt hbudget i (toNat_le_total (List.getElem_mem hlt'))
    have hget : ((shares budget weights).map (·.floor))[i]? =
        some (Share.of budget (Cells.total weights) i weights[i]).floor := by
      rw [List.getElem?_map, shares, List.getElem?_mapIdx, List.getElem?_eq_getElem hlt']
      rfl
    exact ⟨_, hget, least_le_floor _ _ _ _, hfloor.trans_lt (by decide)⟩

theorem unwrappedParts_eq (hpos : 0 < Cells.total weights) (hlt : Cells.total weights < 2 ^ 127)
    (hlow : Wide.least ≤ budget) (hhigh : budget ≤ Wide.greatest) :
    unwrappedParts budget weights =
      if budget - Wide.least < spare budget weights - surplus budget weights then none
      else some (LargestRemainder.parts budget weights) := by
  have hplaces : (shares budget weights).map (·.place) = List.range (shares budget weights).length := by
    rw [map_place_shares, length_shares]
  rw [unwrappedParts, leftover_eq hpos hlt hlow hhigh, exactLeftover_shares hpos hlt hhigh]
  split
  · rfl
  · rw [parts_eq_served_shares hpos hlt hlow hhigh, ← exactLeftover_shares hpos hlt hhigh]
    exact foldlM_addUnit_served hplaces fun i hi => floor_of_served_shares hpos hlt hhigh hi

end Shares
end Checked

namespace LargestRemainder

/-- The parts of any budget add up to it, unless the products of its quotient fall short of the least number by more
    than the floors leave over; they then exceed it by just this. Arithmetic that does not wrap gives these parts,
    unless the floors leave over more than the budget is above the least number; their sum is then below it. Only the
    budgets that are as close to the least number as the weights are large are in either case. -/
theorem sum_parts_of_any_budget (budget : Int) (weights : List Cells) (hpos : 0 < Cells.total weights)
    (hlt : Cells.total weights < 2 ^ 127) (hlow : -2 ^ 127 ≤ budget) (hhigh : budget ≤ 2 ^ 127 - 1) :
    (parts budget weights).sum = budget + max 0 (surplus budget weights - spare budget weights) ∧
      ((parts budget weights).sum = budget ↔ surplus budget weights ≤ spare budget weights) ∧
      (Checked.unwrappedParts budget weights =
        if budget + 2 ^ 127 < spare budget weights - surplus budget weights then none
        else some (parts budget weights)) ∧
      (-2 ^ 127 + Cells.total weights - 1 ≤ budget →
        surplus budget weights = 0 ∧ Checked.unwrappedParts budget weights = some (parts budget weights)) := by
  have hleast : Wide.least ≤ budget := hlow
  have hgreatest : budget ≤ Wide.greatest := hhigh
  have hsum := sum_parts_eq_add hpos hlt hleast hgreatest
  have hunwrapped := Checked.unwrappedParts_eq hpos hlt hleast hgreatest
  rw [show budget - Wide.least = budget + 2 ^ 127 by rw [Wide.least]; omega] at hunwrapped
  refine ⟨hsum, by omega, hunwrapped, fun hroom => ?_⟩
  have hsurplus : surplus budget weights = 0 := surplus_eq_zero (.of_bounds hpos hlt hroom hhigh)
  have hspare : exactLeftover budget (exactShares budget weights) < Cells.total weights :=
    exactLeftover_exactShares_lt hpos
  rw [exactLeftover_exactShares] at hspare
  refine ⟨hsurplus, ?_⟩
  rw [hunwrapped, if_neg (by omega)]

/-- The least budget does not fit the weight 3: its quotient times 3 is one below the range. Nor do the floors of three
    equal weights fit, but their parts add up to it all the same. -/
theorem sum_parts_of_least_budget :
    (0 < Cells.total [3] ∧ Cells.total [3] < 2 ^ 127 ∧ surplus (-2 ^ 127) [3] = 1 ∧ spare (-2 ^ 127) [3] = 0 ∧
      parts (-2 ^ 127) [3] = [-2 ^ 127 + 1] ∧ (parts (-2 ^ 127) [3]).sum = -2 ^ 127 + 1 ∧
      Checked.unwrappedParts (-2 ^ 127) [3] = some [-2 ^ 127 + 1]) ∧
    0 < Cells.total [1, 1, 1] ∧ surplus (-2 ^ 127) [1, 1, 1] = 0 ∧ spare (-2 ^ 127) [1, 1, 1] = 1 ∧
      (parts (-2 ^ 127) [1, 1, 1]).sum = -2 ^ 127 ∧ Checked.unwrappedParts (-2 ^ 127) [1, 1, 1] = none := by
  have hsurplus : surplus (-2 ^ 127) [3] = 1 := by decide
  have hspare : spare (-2 ^ 127) [3] = 0 := by decide
  have hparts : parts (-2 ^ 127) [3] = [-2 ^ 127 + 1] := by cbv
  have hsurplus' : surplus (-2 ^ 127) [1, 1, 1] = 0 := by decide
  have hspare' : spare (-2 ^ 127) [1, 1, 1] = 1 := by decide
  obtain ⟨hsum, -, hunwrapped, -⟩ :=
    sum_parts_of_any_budget (-2 ^ 127) [3] (by decide) (by decide) (by decide) (by decide)
  obtain ⟨hsum', -, hunwrapped', -⟩ :=
    sum_parts_of_any_budget (-2 ^ 127) [1, 1, 1] (by decide) (by decide) (by decide) (by decide)
  rw [hsurplus, hspare] at hsum hunwrapped
  rw [hsurplus', hspare'] at hsum' hunwrapped'
  rw [hparts] at hunwrapped
  exact ⟨⟨by decide, by decide, hsurplus, hspare, hparts, hsum, hunwrapped⟩, by decide, hsurplus', hspare', hsum',
    hunwrapped'⟩

/-- So the parts do not always add up to the budget. -/
theorem exists_sum_parts_ne :
    ¬∀ (budget : Int) (weights : List Cells), 0 < Cells.total weights → Cells.total weights < 2 ^ 127 →
      -2 ^ 127 ≤ budget → budget ≤ 2 ^ 127 - 1 → (parts budget weights).sum = budget := by
  intro h
  have hparts : parts (-2 ^ 127) [3] = [-2 ^ 127 + 1] := by cbv
  have hsum := h (-2 ^ 127) [3] (by decide) (by decide) (by decide) (by decide)
  rw [hparts] at hsum
  revert hsum
  decide

end LargestRemainder
end Allotment
