import Allotment.Proofs.CapRates
import Allotment.Proofs.SlotFilling

/-! Only the proportions of the ratios count. Where every weight is a multiple of another by the same number, the exact
    shares are the same: their floors are, and their remainders are multiples by this number and stand in the same
    order. So every round shares out the same cells and pins the same slots, and a whole allotment cannot tell the two
    apart, neither by its sizes nor by its events nor by what it is refused for. -/

namespace Allotment

/-! ### Multiples -/

/-- A count taken `k` times, or the largest count. -/
def Cells.scale (k : Nat) (count : Cells) : Cells := nearest (k * count.toNat : Nat)

namespace Cells
variable {k : Nat} {counts : List Cells}

theorem toNat_scale {count : Cells} (h : k * count.toNat ≤ most) : (scale k count).toNat = k * count.toNat := by
  rw [scale, toNat_nearest, Int.toNat_natCast, Nat.min_eq_left h]

theorem total_scale (h : ∀ count ∈ counts, k * count.toNat ≤ most) : total (counts.map (scale k)) = k * total counts := by
  induction counts with
  | nil => rfl
  | cons count counts ih =>
    have hrest := ih fun c hc => h c (List.mem_cons_of_mem _ hc)
    rw [List.map_cons, total_cons, total_cons, toNat_scale (h count List.mem_cons_self), hrest, Nat.mul_add]

theorem scale_pos_iff (hk : 0 < k) {count : Cells} (h : k * count.toNat ≤ most) : 0 < scale k count ↔ 0 < count := by
  rw [UInt64.lt_iff_toNat_lt, UInt64.lt_iff_toNat_lt, toNat_scale h]
  exact Nat.mul_pos_iff_of_pos_left hk

theorem toNat_getD_scale (h : ∀ count ∈ counts, k * count.toNat ≤ most) (i : Nat) :
    ((counts.map (scale k)).getD i 0).toNat = k * (counts.getD i 0).toNat := by
  rw [List.getD_eq_getElem?_getD, List.getD_eq_getElem?_getD, List.getElem?_map]
  cases hcount : counts[i]? with
  | none => rfl
  | some count => exact toNat_scale (h count (List.mem_of_getElem? hcount))

end Cells

/-! ### Parts -/

namespace LargestRemainder
variable {budget : Int} {weights : List Cells} {k : Nat}

theorem InRange.of_mul {sum : Nat} (hk : 0 < k) (h : InRange budget (k * sum)) : InRange budget sum := by
  obtain ⟨hpos, hsum, hlow, hhigh⟩ := h
  have hle : sum ≤ k * sum := Nat.le_mul_of_pos_left sum hk
  exact ⟨Nat.pos_of_mul_pos_left hpos, by omega, by omega, hhigh⟩

section Scale
variable (hk : 0 < k) (hfits : ∀ weight ∈ weights, k * weight.toNat ≤ Cells.most)
include hk hfits

theorem exactFloor_scale (i : Nat) :
    exactFloor budget (weights.map (Cells.scale k)) i = exactFloor budget weights i := by
  rw [exactFloor, exactFloor, Cells.toNat_getD_scale hfits, Cells.total_scale hfits, Nat.cast_mul, Nat.cast_mul,
    mul_left_comm]
  exact Int.mul_ediv_mul_of_pos _ _ (by exact_mod_cast hk)

theorem exactRemainder_scale (i : Nat) :
    exactRemainder budget (weights.map (Cells.scale k)) i = k * exactRemainder budget weights i := by
  rw [exactRemainder, exactRemainder, Cells.toNat_getD_scale hfits, Cells.total_scale hfits, Nat.cast_mul,
    Nat.cast_mul, mul_left_comm]
  exact Int.mul_emod_mul_of_pos _ _ (by exact_mod_cast hk)

theorem spare_scale : spare budget (weights.map (Cells.scale k)) = spare budget weights := by
  rw [spare, spare, List.length_map, List.map_congr_left fun i _ => exactFloor_scale hk hfits i]

theorem position_scale (i : Nat) :
    position budget (weights.map (Cells.scale k)) i = position budget weights i := by
  have hk' : (0 : Int) < k := by exact_mod_cast hk
  rw [position, position, List.length_map]
  refine List.countP_congr fun j _ => ?_
  rw [decide_eq_true_eq, decide_eq_true_eq, exactRemainder_scale hk hfits, exactRemainder_scale hk hfits,
    mul_lt_mul_iff_right₀ hk', mul_right_inj' hk'.ne']

/-- Multiples of the weights have the same parts. -/
theorem parts_scale (h : 0 < Cells.total (weights.map (Cells.scale k)) →
      InRange budget (Cells.total (weights.map (Cells.scale k)))) :
    parts budget (weights.map (Cells.scale k)) = parts budget weights := by
  have htotal := Cells.total_scale hfits
  rcases Nat.eq_zero_or_pos (Cells.total weights) with hzero | hpos
  · rw [hzero, Nat.mul_zero] at htotal
    rw [parts_of_total_eq_zero budget htotal, parts_of_total_eq_zero budget hzero, List.length_map]
  · have hscaled := h (htotal ▸ Nat.mul_pos hk hpos)
    rw [parts_eq_map hscaled, parts_eq_map (InRange.of_mul hk (htotal ▸ hscaled)), List.length_map,
      spare_scale hk hfits]
    refine List.map_congr_left fun i _ => ?_
    rw [exactFloor_scale hk hfits, position_scale hk hfits]

end Scale
end LargestRemainder

/-! ### Rounds -/

/-- The slot with its ratio taken `k` times. -/
def Entrant.scale (k : Nat) (entrant : Entrant) : Entrant := { entrant with ratio := entrant.ratio.scale k }

/-- The settlement with every slot changed. -/
def Settlement.map (f : Entrant → Entrant) (settlement : Settlement) : Settlement where
  rounds := settlement.rounds.map fun round => { round with pinned := round.pinned.map f }
  shared := settlement.shared.map (Prod.map f id)

section Scale
variable {bound : Bound} {budget : Int} {pool : List Entrant} {k : Nat}

theorem missing_scale (shared : List (Entrant × Int)) :
    missing bound (shared.map (Prod.map (Entrant.scale k) id)) = (missing bound shared).map (Entrant.scale k) := by
  rw [missing, missing, List.filter_map, List.map_map, List.map_map]
  rfl

theorem keeping_scale (shared : List (Entrant × Int)) :
    keeping bound (shared.map (Prod.map (Entrant.scale k) id)) = (keeping bound shared).map (Entrant.scale k) := by
  rw [keeping, keeping, List.filter_map, List.map_map, List.map_map]
  rfl

theorem spendAll_scale (pinned : List Entrant) :
    bound.spendAll budget (pinned.map (Entrant.scale k)) = bound.spendAll budget pinned := by
  rw [Bound.spendAll, List.foldl_map]
  rfl

theorem ratios_scale (pool : List Entrant) :
    (pool.map (Entrant.scale k)).map (·.ratio) = (pool.map (·.ratio)).map (Cells.scale k) := by
  rw [List.map_map, List.map_map]
  rfl

theorem shareOut_scale (hk : 0 < k) (hfits : ∀ entrant ∈ pool, k * entrant.ratio.toNat ≤ Cells.most)
    (h : 0 < ratioTotal (pool.map (Entrant.scale k)) →
      LargestRemainder.InRange budget (ratioTotal (pool.map (Entrant.scale k)))) :
    shareOut budget (pool.map (Entrant.scale k)) = (shareOut budget pool).map (Prod.map (Entrant.scale k) id) := by
  have hfits' : ∀ ratio ∈ pool.map (·.ratio), k * ratio.toNat ≤ Cells.most := fun ratio hmem => by
    obtain ⟨entrant, hentrant, rfl⟩ := List.mem_map.mp hmem
    exact hfits entrant hentrant
  rw [ratioTotal, ratios_scale] at h
  rw [shareOut, ratios_scale, LargestRemainder.parts_scale hk hfits' h, List.zip_map_left]
  rfl

theorem Settlement.given_map_scale (settlement : Settlement) :
    (settlement.map (Entrant.scale k)).given = settlement.given := by
  simp only [given, map, List.flatMap_map, List.map_map]
  rfl

theorem Settlement.sizes_map_scale (settlement : Settlement) (others : List Cells) :
    (settlement.map (Entrant.scale k)).sizes others = settlement.sizes others := by
  rw [sizes, given_map_scale, sizes]

theorem Settlement.events_map_scale (settlement : Settlement) :
    (settlement.map (Entrant.scale k)).events bound = settlement.events bound := by
  simp only [events, map, List.map_map]
  refine List.map_congr_left fun round _ => ?_
  simp only [Function.comp_apply, Round.event, List.map_map]
  rfl

/-- What keeps the budget of a round in range, and that of every round after it. -/
structure StaysInRange (bound : Bound) (holds : Int → List Entrant → Prop) : Prop where
  inRange : ∀ {budget pool}, holds budget pool → 0 < ratioTotal pool →
    LargestRemainder.InRange budget (ratioTotal pool)
  next : ∀ {budget pool}, holds budget pool → ¬(missing bound (shareOut budget pool)).isEmpty = true →
    holds (bound.spendAll budget (missing bound (shareOut budget pool))) (keeping bound (shareOut budget pool))

theorem staysInRange_floor : StaysInRange .floor UnderFloors := ⟨fun h => h.inRange, fun h => h.next⟩

theorem staysInRange_cap : StaysInRange .cap UnderCaps := ⟨fun h => h.inRange, fun h => h.next⟩

/-- All rounds go the same way for multiples of the ratios. -/
theorem settle_scale {holds : Int → List Entrant → Prop} (hrange : StaysInRange bound holds) (hk : 0 < k)
    (hfits : ∀ entrant ∈ pool, k * entrant.ratio.toNat ≤ Cells.most) (h : holds budget (pool.map (Entrant.scale k))) :
    settle bound budget (pool.map (Entrant.scale k)) = (settle bound budget pool).map (Entrant.scale k) := by
  have hshares := shareOut_scale hk hfits (hrange.inRange h)
  induction budget, pool using settle.induct bound with
  | case1 budget pool shared pinned hnone =>
    have hnone' : (missing bound (shareOut budget (pool.map (Entrant.scale k)))).isEmpty = true := by
      rw [hshares, missing_scale, List.isEmpty_map]
      exact hnone
    rw [settle_of_isEmpty hnone', settle_of_isEmpty hnone, hshares]
    rfl
  | case2 budget pool shared pinned hsome ih =>
    have hsome' : ¬(missing bound (shareOut budget (pool.map (Entrant.scale k)))).isEmpty = true := by
      rw [hshares, missing_scale, List.isEmpty_map]
      exact hsome
    have hnext := hrange.next h hsome'
    rw [hshares, missing_scale, keeping_scale, spendAll_scale] at hnext
    have hfits' : ∀ entrant ∈ keeping bound shared, k * entrant.ratio.toNat ≤ Cells.most := fun entrant hmem =>
      hfits entrant (mem_pool_of_mem_keeping hmem)
    have hlater := ih hfits' hnext (shareOut_scale hk hfits' (hrange.inRange hnext))
    rw [settle_of_not_isEmpty hsome', settle_of_not_isEmpty hsome, hshares, missing_scale, keeping_scale,
      spendAll_scale, hlater]
    rfl

end Scale

/-! ### Sizes -/

section Sizes
variable {budget : Int} {k : Nat} {ratios minimums maximums : List Cells}

theorem entrants_scale (k : Nat) (ratios limits : List Cells) :
    entrants (ratios.map (Cells.scale k)) limits = (entrants ratios limits).map (Entrant.scale k) := by
  apply List.ext_getElem
  · simp [entrants]
  · intro i _ _
    simp [entrants, Entrant.scale]

theorem mem_ratios_of_mem_entrants {limits : List Cells} {entrant : Entrant} (h : entrant ∈ entrants ratios limits) :
    entrant.ratio ∈ ratios :=
  List.mem_of_getElem? (List.getElem?_zip_eq_some.mp (mem_entrants.mp h)).1

theorem flooredSizes_scale (hk : 0 < k) (hfits : ∀ ratio ∈ ratios, k * ratio.toNat ≤ Cells.most)
    (h : UnderFloors budget (entrants (ratios.map (Cells.scale k)) minimums)) :
    flooredSizes budget (ratios.map (Cells.scale k)) minimums = flooredSizes budget ratios minimums := by
  rw [entrants_scale] at h
  have hsettle := settle_scale staysInRange_floor hk (fun _ hmem => hfits _ (mem_ratios_of_mem_entrants hmem)) h
  rw [flooredSizes, flooredSizes, entrants_scale, hsettle, List.map_map]
  simp only [Settlement.sizes_map_scale, Settlement.events_map_scale]
  rfl

theorem takers_scale (hk : 0 < k) (hfits : ∀ ratio ∈ ratios, k * ratio.toNat ≤ Cells.most) (maximums : List Cells) :
    takers (ratios.map (Cells.scale k)) maximums = (takers ratios maximums).map (Entrant.scale k) := by
  rw [takers, takers, entrants_scale, List.filter_map]
  refine congrArg _ (List.filter_congr fun entrant hmem => ?_)
  exact decide_eq_decide.mpr (Cells.scale_pos_iff hk (hfits _ (mem_ratios_of_mem_entrants hmem)))

theorem cappedSizes_scale {budget : Nat} (hk : 0 < k) (hfits : ∀ ratio ∈ ratios, k * ratio.toNat ≤ Cells.most)
    (h : UnderCaps budget (takers (ratios.map (Cells.scale k)) maximums)) (values : List Cells) :
    cappedSizes budget (ratios.map (Cells.scale k)) maximums values = cappedSizes budget ratios maximums values := by
  have hfits' : ∀ entrant ∈ takers ratios maximums, k * entrant.ratio.toNat ≤ Cells.most := fun entrant hmem =>
    hfits _ (mem_ratios_of_mem_entrants (List.mem_of_mem_filter hmem))
  rw [takers_scale hk hfits] at h
  have hsettle := settle_scale staysInRange_cap hk hfits' h
  rw [cappedSizes, cappedSizes, ← takers, ← takers, takers_scale hk hfits, hsettle]
  simp only [Settlement.sizes_map_scale, Settlement.events_map_scale]

/-! ### Allotments -/

theorem checkRatios_scale (hk : 0 < k) (hfits : ∀ ratio ∈ ratios, k * ratio.toNat ≤ Cells.most) :
    checkRatios (ratios.map (Cells.scale k)) = checkRatios ratios := by
  have hany : ((ratios.map (Cells.scale k)).any fun ratio => 0 < ratio) = ratios.any fun ratio => 0 < ratio := by
    rw [List.any_map, Bool.eq_iff_iff, List.any_eq_true, List.any_eq_true]
    refine exists_congr fun ratio => and_congr_right fun hmem => ?_
    rw [Function.comp_apply, decide_eq_true_eq, decide_eq_true_eq]
    exact Cells.scale_pos_iff hk (hfits ratio hmem)
  rw [checkRatios, checkRatios, hany, List.length_map]

theorem floorsOf_scale (k : Nat) (ratios : List Cells) (minimums : Option (List Cells)) :
    floorsOf (ratios.map (Cells.scale k)) minimums = floorsOf ratios minimums := by
  rw [floorsOf, floorsOf, List.map_map]
  rfl

theorem allotAtLeast_scale (hk : 0 < k) (hfits : ∀ ratio ∈ ratios, k * ratio.toNat ≤ Cells.most)
    (hentries : ratios.length ≤ mostEntries) (total : Cells) (minimums : Option (List Cells)) :
    allotAtLeast total (ratios.map (Cells.scale k)) minimums = allotAtLeast total ratios minimums := by
  have hratios := checkRatios_scale hk hfits
  rw [allotAtLeast_eq, allotAtLeast_eq, floorsOf_scale, hratios, List.length_map]
  cases hlength : checkLength "minimums" ratios.length (floorsOf ratios minimums).length with
  | error e => rfl
  | ok =>
    cases hpos : checkRatios ratios with
    | error e => rfl
    | ok =>
      rw [hpos] at hratios
      have hlength' : (floorsOf ratios minimums).length = (ratios.map (Cells.scale k)).length := by
        rw [List.length_map]
        exact (checkLength_eq_ok_iff.mp hlength).symm
      have hunder := underFloors_total total hlength' (by rwa [List.length_map]) (checkRatios_eq_ok_iff.mp hratios)
      exact congrArg Except.ok (flooredSizes_scale hk hfits hunder)

theorem allotAtMost_scale (hk : 0 < k) (hfits : ∀ ratio ∈ ratios, k * ratio.toNat ≤ Cells.most)
    (hentries : ratios.length ≤ mostEntries) (total : Cells) (maximums values : List Cells) :
    allotAtMost total (ratios.map (Cells.scale k)) maximums values = allotAtMost total ratios maximums values := by
  rw [allotAtMost, allotAtMost, List.length_map]
  cases hmaximums : checkLength "maximums" ratios.length maximums.length with
  | error e => rfl
  | ok =>
    cases hvalues : checkLength "values" ratios.length values.length with
    | error e => rfl
    | ok =>
      have hlength : maximums.length = (ratios.map (Cells.scale k)).length := by
        rw [List.length_map]
        exact (checkLength_eq_ok_iff.mp hmaximums).symm
      have hunder := underCaps_total total hlength (by rwa [List.length_map])
      exact congrArg Except.ok (cappedSizes_scale hk hfits hunder values)

end Sizes

/-! ### Slots -/

namespace Slot
variable {k : Nat} {slots : List Slot}

/-- The slot with its ratio taken `k` times. -/
def scale (k : Nat) (slot : Slot) : Slot := { slot with ratio := slot.ratio.scale k }

theorem sharing_scale (k : Nat) (slots : List Slot) : sharing (slots.map (scale k)) = (sharing slots).map (scale k) := by
  rw [sharing, sharing, List.filter_map]
  rfl

theorem fixedTotal_scale (k : Nat) (slots : List Slot) : fixedTotal (slots.map (scale k)) = fixedTotal slots := by
  rw [fixedTotal, fixedTotal, List.filterMap_map]
  rfl

theorem weave_scale (k : Nat) (slots : List Slot) (shared : List Cells) :
    weave (slots.map (scale k)) shared = weave slots shared := by
  induction slots generalizing shared with
  | nil => rfl
  | cons slot slots ih => simp only [List.map_cons, weave, scale, ih]

theorem ratios_scale (k : Nat) (slots : List Slot) :
    (slots.map (scale k)).map (·.ratio) = (slots.map (·.ratio)).map (Cells.scale k) := by
  rw [List.map_map, List.map_map]
  rfl

theorem minimums_scale (k : Nat) (slots : List Slot) :
    (slots.map (scale k)).map (·.minimumSize) = slots.map (·.minimumSize) := by
  rw [List.map_map]
  rfl

theorem fill_scale (hk : 0 < k) (hfits : ∀ slot ∈ slots, k * slot.ratio.toNat ≤ Cells.most)
    (hentries : slots.length ≤ mostEntries) (total : Cells) : fill total (slots.map (scale k)) = fill total slots := by
  have hweave : weave (slots.map (scale k)) = weave slots := funext (weave_scale k slots)
  rcases eq_or_ne (sharing slots) [] with hnil | hne
  · have hnil' : sharing (slots.map (scale k)) = [] := by rw [sharing_scale, hnil, List.map_nil]
    rw [fill_of_fixed total hnil', fill_of_fixed total hnil, hweave]
  · have hne' : sharing (slots.map (scale k)) ≠ [] := by rwa [sharing_scale, ne_eq, List.map_eq_nil_iff]
    have hfits' : ∀ ratio ∈ (sharing slots).map (·.ratio), k * ratio.toNat ≤ Cells.most := fun ratio hmem => by
      obtain ⟨slot, hslot, rfl⟩ := List.mem_map.mp hmem
      exact hfits slot (List.mem_of_mem_filter hslot)
    have hratios := checkRatios_scale hk hfits'
    rw [fill_of_flexible total hne', fill_of_flexible total hne, sharing_scale, fixedTotal_scale, ratios_scale,
      minimums_scale, hweave, hratios]
    cases hpos : checkRatios ((sharing slots).map (·.ratio)) with
    | error e => rfl
    | ok =>
      have hlength : (slots.map (scale k)).length ≤ mostEntries := by rwa [List.length_map]
      have hpos' : ∃ slot ∈ sharing (slots.map (scale k)), 0 < slot.ratio := by
        rw [hpos, ← ratios_scale, checkRatios_eq_ok_iff] at hratios
        obtain ⟨ratio, hmem, hratio⟩ := hratios
        obtain ⟨slot, hslot, rfl⟩ := List.mem_map.mp hmem
        exact ⟨slot, sharing_scale k slots ▸ hslot, hratio⟩
      have hunder := underFloors_fill total hlength hpos'
      rw [sharing_scale, fixedTotal_scale, ratios_scale, minimums_scale] at hunder
      exact congrArg (fun sizes => Except.ok (Traced.map (weave slots) sizes)) (flooredSizes_scale hk hfits' hunder)

end Slot

/-- Ratios in the same proportions are allotted the same, or refused for the same. -/
theorem allotments_of_proportions (k : Nat) (hk : 0 < k) :
    (∀ (total : Cells) (ratios : List Cells) (minimums : Option (List Cells)), ratios.length ≤ mostEntries →
      (∀ ratio ∈ ratios, k * ratio.toNat ≤ Cells.most) →
        allotAtLeast total (ratios.map (Cells.scale k)) minimums = allotAtLeast total ratios minimums) ∧
    (∀ (total : Cells) (ratios maximums values : List Cells), ratios.length ≤ mostEntries →
      (∀ ratio ∈ ratios, k * ratio.toNat ≤ Cells.most) →
        allotAtMost total (ratios.map (Cells.scale k)) maximums values = allotAtMost total ratios maximums values) ∧
    (∀ (total : Cells) (slots : List Slot), slots.length ≤ mostEntries →
      (∀ slot ∈ slots, k * slot.ratio.toNat ≤ Cells.most) →
        Slot.fill total (slots.map (Slot.scale k)) = Slot.fill total slots) := by
  refine ⟨fun total ratios minimums hentries hfits => ?_, fun total ratios maximums values hentries hfits => ?_,
    fun total slots hentries hfits => ?_⟩
  · exact allotAtLeast_scale hk hfits hentries total minimums
  · exact allotAtMost_scale hk hfits hentries total maximums values
  · exact Slot.fill_scale hk hfits hentries total

/-- Ratios next to the largest count are shared out like small ones, through two rounds and past a fixed slot. -/
theorem allotments_of_proportions_large :
    (allotAtLeast 10 [0x4000000000000000, 0x8000000000000000, 0x4000000000000000] (some [4, 4, 0])).map (·.value) =
        .ok [4, 4, 2] ∧
      (allotAtMost 12 [0x4000000000000000, 0x8000000000000000, 0x4000000000000000] [2, 6, 100] [0, 0, 0]).map
        (·.value) = .ok [2, 6, 4] ∧
      Slot.fill 10 [Slot.fixed 3, Slot.flexible 0x4000000000000000, Slot.flexible 0xc000000000000000] =
        Slot.fill 10 [Slot.fixed 3, Slot.flexible 1, Slot.flexible 3] := by
  obtain ⟨hfloored, hcapped, hfilled⟩ := allotments_of_proportions 0x4000000000000000 (by decide)
  have hratios : [1, 2, 1].map (Cells.scale 0x4000000000000000) =
      [0x4000000000000000, 0x8000000000000000, 0x4000000000000000] := by decide
  have hfits : ∀ ratio ∈ ([1, 2, 1] : List Cells), 0x4000000000000000 * ratio.toNat ≤ Cells.most := by simp [Cells.most]
  refine ⟨?_, ?_, ?_⟩
  · rw [← hratios, hfloored 10 [1, 2, 1] (some [4, 4, 0]) (by decide) hfits]
    cbv
  · rw [← hratios, hcapped 12 [1, 2, 1] [2, 6, 100] [0, 0, 0] (by decide) hfits]
    cbv
  · exact hfilled 10 [Slot.fixed 3, Slot.flexible 1, Slot.flexible 3] (by decide) (by decide)

end Allotment
