import Allotment.Proofs.SlotFilling

/-! The flexible slots of a row share what the fixed ones leave, as an allotment of its own. Fixed sizes that overflow
    the row leave them their minimums. So their sizes do not depend on where the fixed slots stand, nor on a ratio or
    minimum that a fixed slot has and does not use; and a fixed slot that brings its own cells along changes no other
    slot. -/

namespace Allotment.Slot

/-! ### Sizes of the flexible slots -/

/-- The sizes at the places of the flexible slots, in order. -/
def flexibleSizes (slots : List Slot) (sizes : List Cells) : List Cells :=
  ((slots.zip sizes).filter fun x => !x.1.isFixed).map (·.2)

theorem flexibleSizes_cons_of_fixed {slot : Slot} {fixed : Cells} (h : slot.size = some fixed) (slots : List Slot)
    (size : Cells) (sizes : List Cells) :
    flexibleSizes (slot :: slots) (size :: sizes) = flexibleSizes slots sizes := by
  simp [flexibleSizes, isFixed, h]

theorem flexibleSizes_cons_of_flexible {slot : Slot} (h : slot.size = none) (slots : List Slot) (size : Cells)
    (sizes : List Cells) : flexibleSizes (slot :: slots) (size :: sizes) = size :: flexibleSizes slots sizes := by
  simp [flexibleSizes, isFixed, h]

/-- The flexible slots find the sizes that are woven in. -/
theorem flexibleSizes_weave {slots : List Slot} {shared : List Cells}
    (hlength : shared.length = (sharing slots).length) : flexibleSizes slots (weave slots shared) = shared := by
  induction slots generalizing shared with
  | nil => exact (List.eq_nil_of_length_eq_zero hlength).symm
  | cons slot slots ih =>
    cases hslot : slot.size with
    | some fixed =>
      rw [sharing_cons_of_fixed hslot] at hlength
      rw [weave_cons_of_fixed hslot, flexibleSizes_cons_of_fixed hslot, ih hlength]
    | none =>
      rw [sharing_cons_of_flexible hslot] at hlength
      cases shared with
      | nil => cases hlength
      | cons size shared =>
        rw [weave_cons_of_flexible hslot, flexibleSizes_cons_of_flexible hslot, ih (Nat.succ.inj hlength)]

/-! ### A slot among others -/

section Insert
variable {before after : List Slot} {slot : Slot} {size : Cells}

theorem sharing_insert (h : slot.size = some size) : sharing (before ++ slot :: after) = sharing (before ++ after) := by
  rw [sharing, List.filter_append, ← sharing, ← sharing, sharing_cons_of_fixed h, sharing, sharing, ← List.filter_append,
    ← sharing]

theorem fixedTotal_append (before after : List Slot) :
    fixedTotal (before ++ after) = fixedTotal before + fixedTotal after := by
  rw [fixedTotal, List.filterMap_append, Cells.total_append, ← fixedTotal, ← fixedTotal]

theorem fixedTotal_insert (h : slot.size = some size) :
    fixedTotal (before ++ slot :: after) = fixedTotal (before ++ after) + size.toNat := by
  rw [fixedTotal_append, fixedTotal_append, fixedTotal_cons_of_fixed h]
  omega

theorem weave_append (before after : List Slot) (shared : List Cells) :
    weave (before ++ after) shared = weave before shared ++ weave after (shared.drop (sharing before).length) := by
  induction before generalizing shared with
  | nil => rfl
  | cons slot before ih =>
    cases hslot : slot.size with
    | some fixed =>
      rw [List.cons_append, weave_cons_of_fixed hslot, weave_cons_of_fixed hslot, ih, sharing_cons_of_fixed hslot,
        List.cons_append]
    | none =>
      simp only [List.cons_append, weave, hslot]
      rw [ih, sharing_cons_of_flexible hslot, List.length_cons, List.drop_tail]

/-- A fixed slot takes its place among the others and moves none of their sizes. -/
theorem weave_insert (h : slot.size = some size) (shared : List Cells) :
    weave (before ++ slot :: after) shared =
      (weave (before ++ after) shared).take before.length ++ size ::
        (weave (before ++ after) shared).drop before.length := by
  have hlength : (weave before shared).length = before.length := length_weave before shared
  rw [weave_append, weave_append, weave_cons_of_fixed h, List.take_left' hlength, List.drop_left' hlength]

end Insert

/-! ### Shares of the flexible slots -/

section Filled
variable {total : Cells} {slots : List Slot} {filled : Traced (List Cells)}

theorem exists_ratio_pos (hfill : fill total slots = .ok filled) (hne : sharing slots ≠ []) :
    ∃ slot ∈ sharing slots, 0 < slot.ratio := by
  by_contra hnone
  have hzero : ∀ slot ∈ sharing slots, slot.ratio = 0 := by
    intro slot hslot
    by_contra hratio
    exact hnone ⟨slot, hslot, UInt64.pos_iff_ne_zero.mpr hratio⟩
  rw [fill_of_ratios_zero total hne hzero] at hfill
  cases hfill

/-- A row that is filled has the shares of its flexible slots woven in. -/
theorem eq_of_fill (hfill : fill total slots = .ok filled) (hne : sharing slots ≠ []) :
    filled = (flooredSizes (total.toNat - fixedTotal slots) ((sharing slots).map (·.ratio))
      ((sharing slots).map (·.minimumSize))).map (weave slots) := by
  rw [fill_of_ratio_pos total (exists_ratio_pos hfill hne)] at hfill
  exact (Except.ok.inj hfill).symm

theorem flexibleSizes_of_fill (hfill : fill total slots = .ok filled) (hne : sharing slots ≠ []) :
    flexibleSizes slots filled.value = (flooredSizes (total.toNat - fixedTotal slots) ((sharing slots).map (·.ratio))
      ((sharing slots).map (·.minimumSize))).value := by
  rw [eq_of_fill hfill hne, Traced.value_map]
  apply flexibleSizes_weave
  rw [length_flooredSizes, List.length_map]

/-- What the fixed slots leave is allotted to the flexible ones as if there were no others. -/
theorem allotAtLeast_of_fill (hfill : fill total slots = .ok filled) (hne : sharing slots ≠ [])
    (hfits : fixedTotal slots ≤ total.toNat) :
    allotAtLeast (Cells.nearest (total.toNat - fixedTotal slots)) ((sharing slots).map (·.ratio))
      (some ((sharing slots).map (·.minimumSize))) = .ok ⟨flexibleSizes slots filled.value, filled.events⟩ := by
  obtain ⟨slot, hslot, hratio⟩ := exists_ratio_pos hfill hne
  have hmost := Cells.toNat_le_most total
  have hleft : ((Cells.nearest (total.toNat - fixedTotal slots)).toNat : Int) = total.toNat - fixedTotal slots :=
    Cells.nearest_of_mem (by omega) (by omega)
  refine allotAtLeast_eq_ok_iff.mpr ⟨?_, ⟨slot.ratio, List.mem_map_of_mem hslot, hratio⟩, ?_⟩
  · rw [floorsOf, Option.getD_some, List.length_map, List.length_map]
  · rw [hleft, flexibleSizes_of_fill hfill hne, eq_of_fill hfill hne]
    rfl

/-- A deficit takes nothing away from the minimums. -/
theorem flexibleSizes_of_deficit (hfill : fill total slots = .ok filled) (hne : sharing slots ≠ [])
    (hentries : slots.length ≤ mostEntries) (hdeficit : total.toNat < fixedTotal slots) :
    flexibleSizes slots filled.value = (sharing slots).map (·.minimumSize) := by
  have h := keepsFloors_fill total hentries (exists_ratio_pos hfill hne)
  have htotal := h.total
  rw [flexibleSizes_of_fill hfill hne]
  refine Cells.eq_of_total_le ?_ h.minimum_le (by omega)
  rw [h.length, List.length_map, List.length_map]

/-- Rows with the same flexible slots, whose fixed sizes are the same in any order, give these the same sizes. -/
theorem exists_fill_of_perm (hfill : fill total slots = .ok filled) (hne : sharing slots ≠ []) {others : List Slot}
    (hsharing : sharing others = sharing slots)
    (hsizes : (others.filterMap (·.size)).Perm (slots.filterMap (·.size))) :
    ∃ filled', fill total others = .ok filled' ∧
      flexibleSizes others filled'.value = flexibleSizes slots filled.value := by
  have hpos := exists_ratio_pos hfill hne
  have hfixed : fixedTotal others = fixedTotal slots := Cells.total_perm hsizes
  rw [← hsharing] at hpos
  have hfill' := fill_of_ratio_pos total hpos
  refine ⟨_, hfill', ?_⟩
  rw [flexibleSizes_of_fill hfill' (hsharing ▸ hne), flexibleSizes_of_fill hfill hne, hsharing, hfixed]

/-- A fixed slot that brings its own cells along leaves the others as they are. -/
theorem exists_fill_insert {before after : List Slot} {slot : Slot} {size total' : Cells}
    (hfill : fill total (before ++ after) = .ok filled) (hne : sharing (before ++ after) ≠ [])
    (hslot : slot.size = some size) (htotal : total'.toNat = total.toNat + size.toNat) :
    ∃ filled', fill total' (before ++ slot :: after) = .ok filled' ∧
      filled'.value = filled.value.take before.length ++ size :: filled.value.drop before.length := by
  have hpos := exists_ratio_pos hfill hne
  have hbudget : (total'.toNat : Int) - fixedTotal (before ++ slot :: after) =
      total.toNat - fixedTotal (before ++ after) := by
    rw [fixedTotal_insert hslot, htotal]
    omega
  rw [← sharing_insert hslot] at hpos
  refine ⟨_, fill_of_ratio_pos total' hpos, ?_⟩
  rw [eq_of_fill hfill hne, Traced.value_map, Traced.value_map, hbudget, sharing_insert hslot, weave_insert hslot]

end Filled

/-- The flexible slots of a row share what the fixed ones leave of it, or have their minimums if that is nothing. -/
theorem fill_refines_allotment (total : Cells) (slots : List Slot) (filled : Traced (List Cells))
    (hfill : fill total slots = .ok filled) (hflexible : sharing slots ≠ []) :
    (fixedTotal slots ≤ total.toNat → ∃ allotted,
      allotAtLeast (Cells.nearest (total.toNat - fixedTotal slots)) ((sharing slots).map (·.ratio))
        (some ((sharing slots).map (·.minimumSize))) = .ok allotted ∧
          flexibleSizes slots filled.value = allotted.value) ∧
    (total.toNat < fixedTotal slots → slots.length ≤ mostEntries →
      flexibleSizes slots filled.value = (sharing slots).map (·.minimumSize)) ∧
    (∀ others, sharing others = sharing slots → (others.filterMap (·.size)).Perm (slots.filterMap (·.size)) →
      ∃ filled', fill total others = .ok filled' ∧
        flexibleSizes others filled'.value = flexibleSizes slots filled.value) ∧
    ∀ (before after : List Slot) (slot : Slot) (size total' : Cells), slots = before ++ after →
      slot.size = some size → total'.toNat = total.toNat + size.toNat →
        ∃ filled', fill total' (before ++ slot :: after) = .ok filled' ∧
          filled'.value = filled.value.take before.length ++ size :: filled.value.drop before.length := by
  refine ⟨fun hfits => ⟨_, allotAtLeast_of_fill hfill hflexible hfits, rfl⟩, fun hdeficit hentries => ?_,
    fun others hsharing hsizes => ?_, fun before after slot size total' hslots hslot htotal => ?_⟩
  · exact flexibleSizes_of_deficit hfill hflexible hentries hdeficit
  · exact exists_fill_of_perm hfill hflexible hsharing hsizes
  · subst hslots
    exact exists_fill_insert hfill hflexible hslot htotal

/-- Two rounds pin a flexible slot each, on either side of the fixed one. Another fixed slot moves none of the three,
    and where the fixed size overflows the row they have their minimums. -/
theorem fill_refines_allotment_repinned :
    (∃ filled, fill 13 [withMinimum (flexible 1) 4, fixed 3, withMinimum (flexible 1) 4, withMinimum (flexible 1) 0] =
        .ok filled ∧
      flexibleSizes [withMinimum (flexible 1) 4, fixed 3, withMinimum (flexible 1) 4, withMinimum (flexible 1) 0]
        filled.value = [4, 4, 2] ∧
      ∃ filled', fill 18 [withMinimum (flexible 1) 4, fixed 5, fixed 3, withMinimum (flexible 1) 4,
          withMinimum (flexible 1) 0] = .ok filled' ∧ filled'.value = [4, 5, 3, 4, 2]) ∧
    ∃ filled, fill 20 [fixed 30, withMinimum (flexible 1) 0, withMinimum (flexible 1) 2] = .ok filled ∧
      flexibleSizes [fixed 30, withMinimum (flexible 1) 0, withMinimum (flexible 1) 2] filled.value = [0, 2] := by
  have hfit : (fill 13 [withMinimum (flexible 1) 4, fixed 3, withMinimum (flexible 1) 4,
      withMinimum (flexible 1) 0]).map (·.value) = .ok [4, 3, 4, 2] := by cbv
  refine ⟨?_, ?_⟩
  · obtain ⟨filled, hfill⟩ : ∃ filled, fill 13 [withMinimum (flexible 1) 4, fixed 3, withMinimum (flexible 1) 4,
        withMinimum (flexible 1) 0] = .ok filled := ⟨_, rfl⟩
    rw [hfill] at hfit
    have hvalue : filled.value = [4, 3, 4, 2] := Except.ok.inj hfit
    obtain ⟨-, -, -, hinsert⟩ := fill_refines_allotment _ _ filled hfill (by decide)
    obtain ⟨filled', hfill', hvalue'⟩ := hinsert [withMinimum (flexible 1) 4]
      [fixed 3, withMinimum (flexible 1) 4, withMinimum (flexible 1) 0] (fixed 5) 5 18 rfl rfl (by decide)
    refine ⟨filled, hfill, ?_, filled', hfill', ?_⟩
    · rw [hvalue]
      decide
    · rw [hvalue', hvalue]
      rfl
  · obtain ⟨filled, hfill⟩ : ∃ filled, fill 20 [fixed 30, withMinimum (flexible 1) 0, withMinimum (flexible 1) 2] =
        .ok filled := ⟨_, rfl⟩
    obtain ⟨-, hdeficit, -⟩ := fill_refines_allotment _ _ filled hfill (by decide)
    exact ⟨filled, hfill, hdeficit (by decide) (by decide)⟩

end Allotment.Slot
