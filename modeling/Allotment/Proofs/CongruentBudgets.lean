import Allotment.Proofs.LargestRemainder

/-! Budgets that differ by whole sums of the weights. Their exact shares differ by whole multiples of the weights, so
    that the remainders are the same; these settle what the floors leave over and who gets it. So every part moves by a
    multiple of its weight, and a deficit is rounded as the surplus is that it is congruent to. -/

namespace Allotment.LargestRemainder

/-- What rounding adds to the floors of the shares. -/
def rounding (budget : Int) (weights : List Cells) : List Int :=
  (parts budget weights).zipWith (· - ·) ((List.range weights.length).map (exactFloor budget weights))

section Shift
variable {budget : Int} {weights : List Cells}

theorem exactFloor_add_mul (hpos : 0 < Cells.total weights) (k : Int) (i : Nat) :
    exactFloor (budget + k * Cells.total weights) weights i =
      exactFloor budget weights i + k * (weights.getD i 0).toNat := by
  have hne : (Cells.total weights : Int) ≠ 0 := by exact_mod_cast hpos.ne'
  rw [exactFloor, exactFloor, add_mul, mul_right_comm, Int.add_mul_ediv_right _ _ hne]

theorem mul_add_mul_emod (k : Int) (weight : Cells) :
    (budget + k * Cells.total weights) * weight.toNat % Cells.total weights =
      budget * weight.toNat % Cells.total weights := by
  rw [add_mul, mul_right_comm, Int.add_mul_emod_self_right]

theorem exactRemainder_add_mul (k : Int) (i : Nat) :
    exactRemainder (budget + k * Cells.total weights) weights i = exactRemainder budget weights i :=
  mul_add_mul_emod k _

theorem spare_add_mul (hpos : 0 < Cells.total weights) (k : Int) :
    spare (budget + k * Cells.total weights) weights = spare budget weights := by
  have hne : (Cells.total weights : Int) ≠ 0 := by exact_mod_cast hpos.ne'
  refine mul_right_cancel₀ hne ?_
  rw [spare_mul_total _ hpos, spare_mul_total _ hpos]
  simp only [mul_add_mul_emod]

theorem position_add_mul (k : Int) (i : Nat) :
    position (budget + k * Cells.total weights) weights i = position budget weights i := by
  simp only [position, exactRemainder_add_mul]

theorem parts_add_mul {k : Int} (h : InRange budget (Cells.total weights))
    (h' : InRange (budget + k * Cells.total weights) (Cells.total weights)) :
    parts (budget + k * Cells.total weights) weights =
      (parts budget weights).zipWith (fun part weight => part + k * weight.toNat) weights := by
  apply List.ext_getElem
  · simp [length_parts]
  · intro i hi _
    rw [length_parts] at hi
    simp only [parts_eq_map h', parts_eq_map h, List.getElem_map, List.getElem_range, List.getElem_zipWith,
      exactFloor_add_mul h.sum_pos, position_add_mul, spare_add_mul h.sum_pos, List.getD_eq_getElem _ _ hi]
    omega

theorem rounding_eq (h : InRange budget (Cells.total weights)) :
    rounding budget weights = (List.range weights.length).map fun i =>
      if position budget weights i ≤ spare budget weights then 1 else 0 := by
  rw [rounding, parts_eq_map h, List.zipWith_map_left, List.zipWith_map_right, List.zipWith_self]
  exact List.map_congr_left fun i _ => add_sub_cancel_left _ _

theorem rounding_add_mul {k : Int} (h : InRange budget (Cells.total weights))
    (h' : InRange (budget + k * Cells.total weights) (Cells.total weights)) :
    rounding (budget + k * Cells.total weights) weights = rounding budget weights := by
  rw [rounding_eq h', rounding_eq h, spare_add_mul h.sum_pos]
  simp only [position_add_mul]

theorem parts_mul_total {k : Int} (h : InRange (k * Cells.total weights) (Cells.total weights)) :
    parts (k * Cells.total weights) weights = weights.map fun weight => k * weight.toNat := by
  have hne : (Cells.total weights : Int) ≠ 0 := by exact_mod_cast h.sum_pos.ne'
  apply List.ext_getElem
  · rw [length_parts, List.length_map]
  · intro i hi hi'
    have hlt : i < weights.length := by rwa [length_parts] at hi
    have hmem : (weights[i], (parts (k * Cells.total weights) weights)[i]) ∈
        weights.zip (parts (k * Cells.total weights) weights) :=
      List.mem_of_getElem? (List.getElem?_zip_eq_some.mpr ⟨List.getElem?_eq_getElem hlt, List.getElem?_eq_getElem hi⟩)
    -- No share has a remainder, so that none takes a unit on top of its floor.
    rcases part_cases h hmem with hpart | ⟨-, hrest⟩
    · rw [hpart, List.getElem_map, mul_right_comm, Int.mul_ediv_cancel _ hne]
    · rw [mul_right_comm, Int.mul_emod_left] at hrest
      exact absurd rfl hrest

end Shift

/-- Budgets that differ by `k` sums of the weights are rounded alike, and their parts differ by `k` times the weights,
    whether they are surpluses or deficits. -/
theorem parts_of_congruent_budgets (weights : List Cells) (hpos : 0 < Cells.total weights)
    (hlt : Cells.total weights < 2 ^ 127) :
    (∀ budget k : Int, -2 ^ 127 + Cells.total weights - 1 ≤ budget → budget ≤ 2 ^ 127 - 1 →
      -2 ^ 127 + Cells.total weights - 1 ≤ budget + k * Cells.total weights →
      budget + k * Cells.total weights ≤ 2 ^ 127 - 1 →
        parts (budget + k * Cells.total weights) weights =
            (parts budget weights).zipWith (fun part weight => part + k * weight.toNat) weights ∧
          rounding (budget + k * Cells.total weights) weights = rounding budget weights) ∧
    ∀ k : Int, -2 ^ 127 + Cells.total weights - 1 ≤ k * Cells.total weights → k * Cells.total weights ≤ 2 ^ 127 - 1 →
      parts (k * Cells.total weights) weights = weights.map fun weight => k * weight.toNat := by
  refine ⟨fun budget k hlow hhigh hlow' hhigh' => ?_, fun k hlow hhigh => ?_⟩
  · have h := InRange.of_bounds hpos hlt hlow hhigh
    have h' := InRange.of_bounds hpos hlt hlow' hhigh'
    exact ⟨parts_add_mul h h', rounding_add_mul h h'⟩
  · exact parts_mul_total (InRange.of_bounds hpos hlt hlow hhigh)

/-- A deficit of nearly `2 ^ 126` gives its two spare units to the weights that the surplus of 2 gives them to. -/
theorem parts_of_congruent_deficit :
    (0 < Cells.total [0xffffffffffffffff, 1, 0xffffffffffffffff] ∧
      Cells.total [0xffffffffffffffff, 1, 0xffffffffffffffff] < 2 ^ 127) ∧
    parts 2 [0xffffffffffffffff, 1, 0xffffffffffffffff] = [1, 0, 1] ∧
    parts (2 - 2 ^ 61 * (2 ^ 65 - 1)) [0xffffffffffffffff, 1, 0xffffffffffffffff] =
      [1 - 2 ^ 61 * (2 ^ 64 - 1), -2 ^ 61, 1 - 2 ^ 61 * (2 ^ 64 - 1)] ∧
    parts (-2 ^ 61 * (2 ^ 65 - 1)) [0xffffffffffffffff, 1, 0xffffffffffffffff] =
      [-2 ^ 61 * (2 ^ 64 - 1), -2 ^ 61, -2 ^ 61 * (2 ^ 64 - 1)] := by
  have htotal : Cells.total [0xffffffffffffffff, 1, 0xffffffffffffffff] = 2 ^ 65 - 1 := by decide
  have hsurplus : parts 2 [0xffffffffffffffff, 1, 0xffffffffffffffff] = [1, 0, 1] := by cbv
  have h := parts_of_congruent_budgets [0xffffffffffffffff, 1, 0xffffffffffffffff] (by decide) (by decide)
  have hdeficit := (h.1 2 (-2 ^ 61) (by decide) (by decide) (by decide) (by decide)).1
  have hwhole := h.2 (-2 ^ 61) (by decide) (by decide)
  rw [hsurplus, htotal] at hdeficit
  rw [htotal] at hwhole
  exact ⟨⟨by decide, by decide⟩, hsurplus, hdeficit, hwhole⟩

end Allotment.LargestRemainder
