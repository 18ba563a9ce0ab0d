import Allotment.Proofs.CheckedNumbers
import Allotment.Proofs.LargestRemainder

/-! The parts of a budget, with every number on the way to them checked, every unit that is left over written at a
    place that is there, and no more of these units than there are shares to take one. Where all parts of a budget are
    numbers of 128 bits nothing is stopped by the checks. -/

namespace Allotment

/-! ### Who is served -/

namespace LargestRemainder

/-- The first `units` shares in their order are those that get a unit. -/
theorem mem_take_mergeSort_iff {shares : List Share} (hplaces : (shares.map (·.place)).Nodup) {s : Share}
    (hs : s ∈ shares) (units : Nat) :
    s ∈ (shares.mergeSort Share.before).take units ↔ standing shares s ≤ units := by
  have hranked := ranked_mergeSort hplaces
  have hperm := List.mergeSort_perm shares Share.before
  obtain ⟨i, hi, rfl⟩ := List.mem_iff_getElem.mp (hperm.mem_iff.mpr hs)
  have hcount : ∀ (j : Nat) (hj : j < (shares.mergeSort Share.before).length),
      standing shares (shares.mergeSort Share.before)[j] = j + 1 := fun j hj => by
    rw [standing, ← hperm.countP_eq, hranked.countP_before_getElem hj]
  rw [hcount i hi, List.mem_take_iff_getElem]
  constructor
  · rintro ⟨j, hj, heq⟩
    have hsame := hcount j (by omega)
    rw [heq, hcount i hi] at hsame
    omega
  · intro hle
    exact ⟨i, by omega, rfl⟩

section Share
variable {budget : Int} {sum : Nat} {weight : Cells}

/-- A floor that something is left of is below the budget, or below 0 where the budget is a deficit. -/
theorem exact_floor_lt (hpos : 0 < sum) {place : Nat} (hw : weight.toNat ≤ sum)
    (hsome : (Share.exact budget sum place weight).remainder ≠ 0) :
    (Share.exact budget sum place weight).floor < max budget 0 := by
  have hpos' : (0 : Int) < sum := by exact_mod_cast hpos
  have hw' : (weight.toNat : Int) ≤ sum := by exact_mod_cast hw
  have hdiv := Int.mul_ediv_add_emod (budget * weight.toNat) sum
  have hmod : budget * weight.toNat % sum ≠ 0 := fun h => hsome (by rw [Share.exact, h, Int.toNat_zero])
  have hnonneg := Int.emod_nonneg (budget * weight.toNat) hpos'.ne'
  have hproduct : budget * weight.toNat ≤ max budget 0 * sum :=
    (mul_le_mul_of_nonneg_right (le_max_left budget 0) (Int.natCast_nonneg _)).trans
      (mul_le_mul_of_nonneg_left hw' (le_max_right budget 0))
  refine lt_of_mul_lt_mul_right ?_ hpos'.le
  rw [mul_comm] at hdiv
  show budget * weight.toNat / sum * sum < max budget 0 * sum
  omega

theorem exact_floor_nonneg (hbudget : 0 ≤ budget) (place : Nat) :
    0 ≤ (Share.exact budget sum place weight).floor :=
  Int.ediv_nonneg (mul_nonneg hbudget (Int.natCast_nonneg _)) (Int.natCast_nonneg _)

theorem exact_floor_nonpos (hpos : 0 < sum) (hw : weight.toNat ≤ sum) (hbudget : budget ≤ 0) (place : Nat) :
    (Share.exact budget sum place weight).floor ≤ 0 := by
  have hle : budget * weight.toNat / sum ≤ max budget 0 := floor_le hpos hw
  rwa [max_eq_right hbudget] at hle

theorem least_le_exact_floor (h : InRange budget sum) (hw : weight.toNat ≤ sum) (place : Nat) :
    Wide.least ≤ (Share.exact budget sum place weight).floor := by
  show Wide.least ≤ budget * weight.toNat / sum
  rw [(mul_ediv_emod budget h.sum_pos weight.toNat).1]
  exact (h.le_quotient_mul hw).trans (le_add_of_nonneg_right (Int.natCast_nonneg _))

end Share
end LargestRemainder

namespace Checked
open LargestRemainder

/-! ### One share -/

/-- The share of a weight in what whole sums leave of the budget. -/
def restShare (rest sum : Int) (weight : Cells) : Option Wide.Division := do
  mulDiv (← word rest) (← word weight.toNat) (← word sum)

/-- The share of the weight at `place`; the sum of the weights must not be 0. -/
def share (budget sum : Int) (place : Nat) (weight : Cells) : Option Share :=
  if sum = 0 then none
  else do
    let quotient ← signed (budget / sum)
    let rest ← signed (budget % sum)
    let extra ← restShare rest sum weight
    let whole ← signed (quotient * weight.toNat)
    let more ← signed extra.quotient.toNat
    let floor ← signed (whole + more)
    let remainder ← signed extra.remainder.toNat
    return ⟨place, floor, remainder.toNat⟩

section Share
variable {budget : Int} {sum : Nat} {weight : Cells}

theorem restShare_eq (h : InRange budget sum) (weight : Cells) :
    restShare (budget % sum) sum weight = some (Wide.mulDiv (BitVec.ofInt 128 (budget % sum))
      (BitVec.ofNat 128 weight.toNat) (BitVec.ofNat 128 sum)) := by
  have hpos : (0 : Int) < sum := by exact_mod_cast h.sum_pos
  have hlt := h.sum_lt
  have hrest := Int.emod_lt_of_pos budget hpos
  have hrest' := Int.emod_nonneg budget hpos.ne'
  have hweight := weight.toNat_lt
  have hsum : (BitVec.ofNat 128 sum).toNat = sum := toNat_ofNat_of_lt hlt
  have hless : (BitVec.ofInt 128 (budget % sum)).toNat < (BitVec.ofNat 128 sum).toNat := by
    rw [toNat_ofInt_of_lt hrest' (by omega), hsum]
    omega
  rw [restShare, word_of_mem hrest' (by omega), word_natCast (n := weight.toNat) (by omega),
    word_natCast (n := sum) (by omega)]
  exact mulDiv_eq hless (by rwa [hsum]) (BitVec.ofNat 128 weight.toNat)

/-- A share of a budget whose parts all fit is the share without checks. -/
theorem share_eq (h : InRange budget sum) (place : Nat) (hw : weight.toNat ≤ sum) :
    share budget sum place weight = some (Share.of budget sum place weight) := by
  have hpos : (0 : Int) < sum := by exact_mod_cast h.sum_pos
  have hsum := h.sum_le
  have hgreatest : max budget 0 ≤ Wide.greatest := max_le h.high (by decide)
  -- The quotient itself is its product with a weight of 1.
  have hquotient : Wide.least ≤ budget / sum ∧ budget / sum ≤ Wide.greatest := by
    have hlow := h.le_quotient_mul (show 1 ≤ sum from h.sum_pos)
    have hhigh : budget / sum * (1 : Nat) ≤ max budget 0 := quotient_mul_le h.sum_pos h.sum_pos
    rw [Nat.cast_one, mul_one] at hlow hhigh
    exact ⟨hlow, hhigh.trans hgreatest⟩
  have hnonneg := Int.emod_nonneg budget hpos.ne'
  have hless := Int.emod_lt_of_pos budget hpos
  have hrest : Wide.least ≤ budget % sum ∧ budget % sum ≤ Wide.greatest := by
    have hleast : Wide.least ≤ 0 := by decide
    omega
  have hwhole : Wide.least ≤ budget / sum * weight.toNat ∧ budget / sum * weight.toNat ≤ Wide.greatest :=
    ⟨h.le_quotient_mul hw, (quotient_mul_le h.sum_pos hw).trans hgreatest⟩
  have hfloor := (mul_ediv_emod budget h.sum_pos weight.toNat).1
  have hfloor' : Wide.least ≤ budget * weight.toNat / sum ∧ budget * weight.toNat / sum ≤ Wide.greatest :=
    ⟨least_le_exact_floor h hw place, (floor_le h.sum_pos hw).trans hgreatest⟩
  have hdivided := divided_rest h.sum_pos h.sum_lt budget weight
  have hmore := hdivided.quotient_eq
  have hremainder := hdivided.remainder_lt
  rw [toNat_ofNat_of_lt h.sum_lt] at hmore hremainder
  have hmore' : (budget % sum).toNat * weight.toNat / sum ≤ sum :=
    (Nat.div_le_of_le_mul (Nat.mul_le_mul_right _ (by omega))).trans hw
  rw [← hmore] at hfloor hmore'
  rw [hfloor] at hfloor'
  unfold share Share.of
  simp only [if_neg hpos.ne', signed_of_mem hquotient.1 hquotient.2, signed_of_mem hrest.1 hrest.2,
    Option.bind_eq_bind, Option.bind_some, restShare_eq h weight]
  generalize Wide.mulDiv (BitVec.ofInt 128 (budget % sum)) (BitVec.ofNat 128 weight.toNat) (BitVec.ofNat 128 sum) =
    extra at *
  have hmoreFits : signed extra.quotient.toNat = some (extra.quotient.toNat : Int) := signed_natCast (by omega)
  have hremainderFits : signed extra.remainder.toNat = some (extra.remainder.toNat : Int) := signed_natCast (by omega)
  simp only [signed_of_mem hwhole.1 hwhole.2, hmoreFits, signed_of_mem hfloor'.1 hfloor'.2, hremainderFits,
    Wide.clamp_of_mem hwhole.1 hwhole.2, Wide.clamp_of_mem hfloor'.1 hfloor'.2, Option.bind_some, Int.toNat_natCast]
  rfl

end Share

/-! ### All parts -/

theorem mapM_some {α β : Type} {f : α → Option β} {g : α → β} {l : List α} (h : ∀ x ∈ l, f x = some (g x)) :
    l.mapM f = some (l.map g) := by
  induction l with
  | nil => rfl
  | cons x l ih =>
    rw [List.mapM_cons, h x List.mem_cons_self, ih fun y hy => h y (List.mem_cons_of_mem x hy)]
    rfl

/-- The parts with a unit on top of the one at `place`. -/
def addUnit (parts : List Int) (place : Nat) : Option (List Int) := do
  let part ← parts[place]?
  return parts.set place (← signed (part + 1))

/-- The parts of `budget` in proportion to `weights`. The units left over must be fewer than the weights, and no
    deficit. -/
def parts (budget : Int) (weights : List Cells) : Option (List Int) := do
  let total ← sum (weights.map fun weight => (weight.toNat : Int))
  if total = 0 then return weights.map fun _ => 0
  else
    let shares ← weights.zipIdx.mapM fun (weight, place) => share budget total place weight
    let floors ← sum (shares.map (·.floor))
    let leftover ← signed (budget - floors)
    if 0 ≤ leftover ∧ leftover < weights.length then
      (((shares.mergeSort Share.before).take leftover.toNat).map (·.place)).foldlM addUnit (shares.map (·.floor))
    else none

theorem foldlM_addUnit {places : List Nat} (hnodup : places.Nodup) {parts : List Int}
    (h : ∀ i ∈ places, ∃ part, parts[i]? = some part ∧ Wide.least ≤ part ∧ part < Wide.greatest) :
    places.foldlM addUnit parts = some (parts.mapIdx fun i part => if i ∈ places then part + 1 else part) := by
  induction places generalizing parts with
  | nil =>
    refine congrArg some (List.ext_getElem? fun i => ?_)
    simp
  | cons place places ih =>
    obtain ⟨hnotin, hnodup'⟩ := List.nodup_cons.mp hnodup
    obtain ⟨part, hpart, hlow, hhigh⟩ := h place List.mem_cons_self
    have hadd : addUnit parts place = some (parts.set place (part + 1)) := by
      rw [addUnit, hpart, Option.bind_eq_bind, Option.bind_some, signed_of_mem (by omega) (by omega)]
      rfl
    have hlt : place < parts.length := (List.getElem?_eq_some_iff.mp hpart).1
    rw [List.foldlM_cons, hadd, Option.bind_eq_bind, Option.bind_some, ih hnodup' fun i hi => ?_]
    · refine congrArg some (List.ext_getElem? fun i => ?_)
      rw [List.getElem?_mapIdx, List.getElem?_mapIdx]
      by_cases hi : i = place
      · subst hi
        rw [List.getElem?_set_self hlt, hpart]
        simp [hnotin]
      · rw [List.getElem?_set_ne (Ne.symm hi)]
        simp [hi]
    -- The places are distinct, so that the later ones still have their floors.
    · obtain ⟨part', hpart', hmem⟩ := h i (List.mem_cons_of_mem place hi)
      have hne : place ≠ i := by
        rintro rfl
        exact hnotin hi
      exact ⟨part', by rwa [List.getElem?_set_ne hne], hmem⟩

/-- Writing units at the places of those who are served gives each of them a unit. -/
theorem mapIdx_served {shares : List Share} (hplaces : shares.map (·.place) = List.range shares.length)
    (units : Nat) :
    ((shares.map (·.floor)).mapIdx fun i part =>
      if i ∈ ((shares.mergeSort Share.before).take units).map (·.place) then part + 1 else part) =
        shares.map (Share.served units shares) := by
  have hnodup : (shares.map (·.place)).Nodup := hplaces ▸ List.nodup_range
  have hplace : ∀ (j : Nat) (hj : j < shares.length), shares[j].place = j := fun j hj => by
    have hget : (shares.map (·.place))[j]? = (List.range shares.length)[j]? := congrArg (·[j]?) hplaces
    rw [List.getElem?_map, List.getElem?_eq_getElem hj, List.getElem?_range hj] at hget
    exact Option.some.inj hget
  apply List.ext_getElem
  · simp
  · intro i hi _
    have hi' : i < shares.length := by simpa using hi
    have hiff : i ∈ ((shares.mergeSort Share.before).take units).map (·.place) ↔
        standing shares shares[i] ≤ units := by
      rw [← mem_take_mergeSort_iff hnodup (List.getElem_mem hi'), List.mem_map]
      constructor
      · rintro ⟨s, hs, rfl⟩
        obtain ⟨j, hj, rfl⟩ := List.mem_iff_getElem.mp
          ((List.mergeSort_perm shares Share.before).mem_iff.mp (List.mem_of_mem_take hs))
        simpa only [hplace j hj] using hs
      · exact fun hs => ⟨shares[i], hs, hplace i hi'⟩
    rw [List.getElem_mapIdx, List.getElem_map, List.getElem_map, Share.served]
    by_cases hserved : standing shares shares[i] ≤ units
    · rw [if_pos (hiff.mpr hserved), if_pos hserved]
    · rw [if_neg (mt hiff.mp hserved), if_neg hserved, add_zero]

theorem foldlM_addUnit_served {shares : List Share} (hplaces : shares.map (·.place) = List.range shares.length)
    {units : Nat} (hroom : ∀ i ∈ ((shares.mergeSort Share.before).take units).map (·.place),
      ∃ floor, (shares.map (·.floor))[i]? = some floor ∧ Wide.least ≤ floor ∧ floor < Wide.greatest) :
    (((shares.mergeSort Share.before).take units).map (·.place)).foldlM addUnit (shares.map (·.floor)) =
      some (shares.map (Share.served units shares)) := by
  have hnodup : (((shares.mergeSort Share.before).take units).map (·.place)).Nodup :=
    (ranked_mergeSort (hplaces ▸ List.nodup_range)).places.sublist ((List.take_sublist _ _).map _)
  rw [foldlM_addUnit hnodup hroom, mapIdx_served hplaces]

theorem mapM_share {budget : Int} {weights : List Cells} (h : InRange budget (Cells.total weights)) :
    (weights.zipIdx.mapM fun (weight, place) => share budget (Cells.total weights) place weight) =
      some (shares budget weights) := by
  rw [shares, List.mapIdx_eq_zipIdx_map]
  exact mapM_some fun x hx => share_eq h x.2 (toNat_le_total (List.fst_mem_of_mem_zipIdx hx))

theorem sum_floors {budget : Int} {weights : List Cells} (h : InRange budget (Cells.total weights)) :
    sum ((exactShares budget weights).map (·.floor)) = some ((exactShares budget weights).map (·.floor)).sum := by
  have hnonneg := (splits_exactShares budget h.sum_pos).exactLeftover_nonneg h.sum_pos
  have hless : exactLeftover budget (exactShares budget weights) < Cells.total weights :=
    exactLeftover_exactShares_lt h.sum_pos
  have hlow := h.low
  have hhigh := h.high
  rw [exactLeftover] at hnonneg hless
  refine sum_of_sign ?_ (by omega) (by omega)
  rcases le_total 0 budget with hbudget | hbudget
  · left
    intro n hn
    obtain ⟨share, hshare, rfl⟩ := List.mem_map.mp hn
    obtain ⟨i, hi, rfl⟩ := List.mem_mapIdx.mp hshare
    exact exact_floor_nonneg hbudget i
  · right
    intro n hn
    obtain ⟨share, hshare, rfl⟩ := List.mem_map.mp hn
    obtain ⟨i, hi, rfl⟩ := List.mem_mapIdx.mp hshare
    exact exact_floor_nonpos h.sum_pos (toNat_le_total (List.getElem_mem hi)) hbudget i

/-- The floors of those who are served have room for a unit: something is left of the shares, so that they are below
    the greatest number. -/
theorem floor_of_served {budget : Int} {weights : List Cells} (h : InRange budget (Cells.total weights)) {i : Nat}
    (hi : i ∈ (((exactShares budget weights).mergeSort Share.before).take
      (exactLeftover budget (exactShares budget weights)).toNat).map (·.place)) :
    ∃ floor, ((exactShares budget weights).map (·.floor))[i]? = some floor ∧ Wide.least ≤ floor ∧
      floor < Wide.greatest := by
  have hsplits := splits_exactShares budget h.sum_pos
  obtain ⟨share, htaken, rfl⟩ := List.mem_map.mp hi
  have hshare : share ∈ exactShares budget weights :=
    (List.mergeSort_perm _ Share.before).mem_iff.mp (List.mem_of_mem_take htaken)
  have hstanding := (mem_take_mergeSort_iff hsplits.places hshare _).mp htaken
  obtain ⟨i, hlt, rfl⟩ := List.mem_mapIdx.mp hshare
  have hw := toNat_le_total (List.getElem_mem hlt)
  have hsome : (Share.exact budget (Cells.total weights) i weights[i]).remainder ≠ 0 := fun hzero => by
    have hserved := hsplits.served_of_remainder_eq_zero h.sum_pos hshare hzero
    rw [Share.served, if_pos hstanding] at hserved
    omega
  refine ⟨(Share.exact budget (Cells.total weights) i weights[i]).floor, ?_, least_le_exact_floor h hw i,
    (exact_floor_lt h.sum_pos hw hsome).trans_le (max_le h.high (by decide))⟩
  rw [List.getElem?_map, exactShares, List.getElem?_mapIdx]
  show ((weights[i]?.map _).map _) = _
  rw [List.getElem?_eq_getElem hlt]
  rfl

/-- The parts of a budget that all fit are the parts without checks. -/
theorem parts_eq {budget : Int} {weights : List Cells} (hsum : (Cells.total weights : Int) ≤ Wide.greatest)
    (h : 0 < Cells.total weights → InRange budget (Cells.total weights)) :
    parts budget weights = some (LargestRemainder.parts budget weights) := by
  rw [parts, sum_toNat hsum, Option.bind_eq_bind, Option.bind_some]
  rcases Nat.eq_zero_or_pos (Cells.total weights) with hzero | hpos
  · rw [if_pos (by exact_mod_cast hzero), parts_of_total_eq_zero budget hzero, List.map_const']
    rfl
  have h := h hpos
  have hsplits := splits_exactShares budget hpos
  have hnonneg := hsplits.exactLeftover_nonneg hpos
  have hless := spare_lt_length h
  rw [← exactLeftover_exactShares] at hless
  have hfits : Wide.least ≤ exactLeftover budget (exactShares budget weights) ∧
      exactLeftover budget (exactShares budget weights) ≤ Wide.greatest := by
    have hleast : Wide.least ≤ 0 := by decide
    have hlt : exactLeftover budget (exactShares budget weights) < Cells.total weights :=
      exactLeftover_exactShares_lt hpos
    omega
  have hplaces : (exactShares budget weights).map (·.place) = List.range (exactShares budget weights).length := by
    rw [map_place_exactShares, exactShares, List.length_mapIdx]
  rw [if_neg (by exact_mod_cast hpos.ne'), mapM_share h, shares_eq_exactShares h]
  simp only [Option.bind_eq_bind, Option.bind_some, sum_floors h]
  rw [← exactLeftover, signed_of_mem hfits.1 hfits.2, Option.bind_some, if_pos ⟨hnonneg, hless⟩,
    foldlM_addUnit_served hplaces fun i hi => floor_of_served h hi, parts_eq_served h]

-- One weight of 3 has no exact product with the quotient of the least budget.
example : parts Wide.least [3] = none := by decide

example : parts (Wide.least + 2) [3] = some [Wide.least + 2] := by cbv

end Checked
end Allotment
