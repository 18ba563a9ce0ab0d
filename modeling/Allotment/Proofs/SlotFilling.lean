import Allotment.Slot
import Allotment.Proofs.FlooredSizes

/-! How slots fill a row. A fixed slot has its size, a flexible one at least its minimum, and one of ratio 0 exactly
    that. Together they fill the row, or overflow it by what the fixed sizes and the minimums need: the deficit that
    fixed sizes leave is no more than the floors of the flexible slots make up for. -/

namespace Allotment.Slot

/-! ### Weaving -/

/-- The sum of the minimums of the flexible slots. -/
def minimumTotal (slots : List Slot) : Nat := Cells.total ((sharing slots).map (·.minimumSize))

theorem sharing_cons_of_fixed {slot : Slot} {size : Cells} (h : slot.size = some size) (slots : List Slot) :
    sharing (slot :: slots) = sharing slots := by
  simp [sharing, isFixed, h]

theorem sharing_cons_of_flexible {slot : Slot} (h : slot.size = none) (slots : List Slot) :
    sharing (slot :: slots) = slot :: sharing slots := by
  simp [sharing, isFixed, h]

theorem fixedTotal_cons_of_fixed {slot : Slot} {size : Cells} (h : slot.size = some size) (slots : List Slot) :
    fixedTotal (slot :: slots) = size.toNat + fixedTotal slots := by
  rw [fixedTotal, List.filterMap_cons_some h, Cells.total_cons, fixedTotal]

theorem fixedTotal_cons_of_flexible {slot : Slot} (h : slot.size = none) (slots : List Slot) :
    fixedTotal (slot :: slots) = fixedTotal slots := by
  rw [fixedTotal, List.filterMap_cons_none h, fixedTotal]

theorem weave_cons_of_fixed {slot : Slot} {size : Cells} (h : slot.size = some size) (slots : List Slot)
    (shared : List Cells) : weave (slot :: slots) shared = size :: weave slots shared := by
  simp only [weave, h]

theorem weave_cons_of_flexible {slot : Slot} (h : slot.size = none) (slots : List Slot) (size : Cells)
    (shared : List Cells) : weave (slot :: slots) (size :: shared) = size :: weave slots shared := by
  simp only [weave, h, List.headD_cons, List.tail_cons]

/-- What a slot may end with: its own size if it is fixed, and else a size of which `p` holds. -/
def Accepts (p : Slot → Cells → Prop) (slot : Slot) (size : Cells) : Prop :=
  match slot.size with
  | some fixed => size = fixed
  | none => p slot size

theorem accepts_weave {p : Slot → Cells → Prop} {slots : List Slot} {shared : List Cells}
    (hlength : shared.length = (sharing slots).length)
    (h : ∀ (j : Nat) (slot : Slot) (size : Cells), (sharing slots)[j]? = some slot → shared[j]? = some size →
      p slot size) (i : Nat) (slot : Slot) (size : Cells) (hslot : slots[i]? = some slot)
    (hsize : (weave slots shared)[i]? = some size) : Accepts p slot size := by
  induction slots generalizing shared i with
  | nil => cases hslot
  | cons first slots ih =>
    cases hfirst : first.size with
    | some fixed =>
      rw [sharing_cons_of_fixed hfirst] at hlength h
      rw [weave_cons_of_fixed hfirst] at hsize
      cases i with
      | zero =>
        cases hslot
        cases hsize
        simp only [Accepts, hfirst]
      | succ i => exact ih hlength h i hslot hsize
    | none =>
      rw [sharing_cons_of_flexible hfirst] at hlength h
      cases shared with
      | nil => cases hlength
      | cons given shared =>
        rw [weave_cons_of_flexible hfirst] at hsize
        cases i with
        | zero =>
          cases hslot
          cases hsize
          simp only [Accepts, hfirst]
          exact h 0 slot size rfl rfl
        | succ i => exact ih (Nat.succ.inj hlength) (fun j => h (j + 1)) i hslot hsize

theorem total_weave {slots : List Slot} {shared : List Cells} (hlength : shared.length = (sharing slots).length) :
    Cells.total (weave slots shared) = fixedTotal slots + Cells.total shared := by
  induction slots generalizing shared with
  | nil =>
    obtain rfl := List.eq_nil_of_length_eq_zero hlength
    rfl
  | cons slot slots ih =>
    cases hslot : slot.size with
    | some size =>
      rw [sharing_cons_of_fixed hslot] at hlength
      rw [weave_cons_of_fixed hslot, fixedTotal_cons_of_fixed hslot, Cells.total_cons, ih hlength, Nat.add_assoc]
    | none =>
      rw [sharing_cons_of_flexible hslot] at hlength
      cases shared with
      | nil => cases hlength
      | cons size shared =>
        rw [weave_cons_of_flexible hslot, fixedTotal_cons_of_flexible hslot, Cells.total_cons, Cells.total_cons,
          ih (Nat.succ.inj hlength), Nat.add_left_comm]

/-! ### Filling -/

theorem fill_of_fixed (total : Cells) {slots : List Slot} (h : sharing slots = []) :
    fill total slots = .ok (.quiet (weave slots [])) := by
  simp only [fill, h, List.isEmpty_nil, if_true]

theorem fill_of_flexible (total : Cells) {slots : List Slot} (h : sharing slots ≠ []) :
    fill total slots = (checkRatios ((sharing slots).map (·.ratio))).bind fun _ =>
      .ok ((flooredSizes (total.toNat - fixedTotal slots) ((sharing slots).map (·.ratio))
        ((sharing slots).map (·.minimumSize))).map (weave slots)) := by
  rw [fill, if_neg (mt List.isEmpty_iff.mp h)]
  rfl

theorem length_sharing_le (slots : List Slot) : (sharing slots).length ≤ slots.length := List.length_filter_le _ _

theorem fixedTotal_le {slots : List Slot} (h : slots.length ≤ mostEntries) :
    fixedTotal slots ≤ Cells.most * mostEntries :=
  Cells.total_le_of_length ((List.length_filterMap_le _ _).trans h)

theorem length_minimums (slots : List Slot) : (slots.map (·.minimumSize)).length = (slots.map (·.ratio)).length := by
  rw [List.length_map, List.length_map]

/-- The deficit that fixed sizes can leave is within range for the flexible slots. -/
theorem underFloors_fill (total : Cells) {slots : List Slot} (hentries : slots.length ≤ mostEntries)
    (hpos : ∃ slot ∈ sharing slots, 0 < slot.ratio) :
    UnderFloors (total.toNat - fixedTotal slots)
      (entrants ((sharing slots).map (·.ratio)) ((sharing slots).map (·.minimumSize))) := by
  have hfixed := fixedTotal_le hentries
  have hmost := Cells.toNat_le_most total
  refine underFloors_entrants (length_minimums _) ?_ ?_ (by omega) (by omega)
  · rw [List.length_map]
    exact (length_sharing_le slots).trans hentries
  · obtain ⟨slot, hmem, hratio⟩ := hpos
    exact ⟨slot.ratio, List.mem_map_of_mem hmem, hratio⟩

/-- The sizes of the flexible slots, shared out of what the fixed ones leave. -/
theorem keepsFloors_fill (total : Cells) {slots : List Slot} (hentries : slots.length ≤ mostEntries)
    (hpos : ∃ slot ∈ sharing slots, 0 < slot.ratio) :
    KeepsFloors (total.toNat - fixedTotal slots) ((sharing slots).map (·.ratio)) ((sharing slots).map (·.minimumSize))
      (flooredSizes (total.toNat - fixedTotal slots) ((sharing slots).map (·.ratio))
        ((sharing slots).map (·.minimumSize))).value :=
  keepsFloors_flooredSizes (length_minimums _) (underFloors_fill total hentries hpos)

/-- What the sizes of all slots come to where flexible ones share what is left. -/
theorem total_weave_flooredSizes (total : Cells) {slots : List Slot} (hentries : slots.length ≤ mostEntries)
    (hpos : ∃ slot ∈ sharing slots, 0 < slot.ratio) :
    Cells.total (weave slots (flooredSizes (total.toNat - fixedTotal slots) ((sharing slots).map (·.ratio))
      ((sharing slots).map (·.minimumSize))).value) = max total.toNat (fixedTotal slots + minimumTotal slots) := by
  have h := keepsFloors_fill total hentries hpos
  have htotal := h.total
  have hlength := h.length
  rw [List.length_map] at hlength
  rw [total_weave hlength, minimumTotal]
  omega

/-- A flexible slot ends with at least its minimum, and with exactly that if it has no ratio. -/
def Suits (slot : Slot) (size : Cells) : Prop :=
  slot.minimumSize ≤ size ∧ (slot.ratio = 0 → size = slot.minimumSize)

theorem suits_of_keepsFloors {budget : Int} {slots : List Slot} {sizes : List Cells}
    (h : KeepsFloors budget (slots.map (·.ratio)) (slots.map (·.minimumSize)) sizes) (j : Nat) (slot : Slot)
    (size : Cells) (hslot : slots[j]? = some slot) (hsize : sizes[j]? = some size) : Suits slot size := by
  have hminimum : (slots.map (·.minimumSize))[j]? = some slot.minimumSize := by
    rw [List.getElem?_map, hslot, Option.map_some]
  refine ⟨h.minimum_le j _ _ hminimum hsize, fun hzero => ?_⟩
  have heq := h.of_ratio_zero j (by rw [List.getElem?_map, hslot, Option.map_some, hzero])
  rw [hsize, hminimum] at heq
  exact Option.some.inj heq

theorem fill_of_ratios_zero (total : Cells) {slots : List Slot} (hne : sharing slots ≠ [])
    (hzero : ∀ slot ∈ sharing slots, slot.ratio = 0) :
    fill total slots = .error (.zeroRatioSum (sharing slots).length) := by
  have hratios : ∀ ratio ∈ (sharing slots).map (·.ratio), ratio = 0 := by
    intro ratio hmem
    obtain ⟨slot, hslot, rfl⟩ := List.mem_map.mp hmem
    exact hzero slot hslot
  rw [fill_of_flexible total hne, checkRatios_of_zero hratios, List.length_map]
  rfl

theorem fill_of_ratio_pos (total : Cells) {slots : List Slot} (hpos : ∃ slot ∈ sharing slots, 0 < slot.ratio) :
    fill total slots = .ok ((flooredSizes (total.toNat - fixedTotal slots) ((sharing slots).map (·.ratio))
      ((sharing slots).map (·.minimumSize))).map (weave slots)) := by
  obtain ⟨slot, hmem, hratio⟩ := hpos
  rw [fill_of_flexible total (List.ne_nil_of_mem hmem),
    checkRatios_of_pos ⟨slot.ratio, List.mem_map_of_mem hmem, hratio⟩]
  rfl

/-- Every row of slots is filled, or overflows by what the fixed sizes and the minimums need. -/
theorem fill_fills (total : Cells) (slots : List Slot) (hentries : slots.length ≤ mostEntries) :
    (sharing slots ≠ [] → (∀ slot ∈ sharing slots, slot.ratio = 0) →
      fill total slots = .error (.zeroRatioSum (sharing slots).length)) ∧
    (sharing slots = [] ∨ (∃ slot ∈ sharing slots, 0 < slot.ratio) →
      ∃ filled, fill total slots = .ok filled ∧ filled.value.length = slots.length ∧
        (∀ (i : Nat) (slot : Slot) (size : Cells), slots[i]? = some slot → filled.value[i]? = some size →
          Accepts Suits slot size) ∧
        (sharing slots ≠ [] →
          Cells.total filled.value = max total.toNat (fixedTotal slots + minimumTotal slots))) := by
  refine ⟨fill_of_ratios_zero total, ?_⟩
  rintro (hnil | hpos)
  · have hlength : ([] : List Cells).length = (sharing slots).length := by
      rw [hnil]
      rfl
    refine ⟨_, fill_of_fixed total hnil, length_weave slots [], ?_, fun hne => absurd hnil hne⟩
    refine accepts_weave hlength fun j slot size _ hsize => ?_
    cases hsize
  · have h := keepsFloors_fill total hentries hpos
    have htotal := h.total
    have hlength := h.length
    rw [List.length_map] at hlength
    refine ⟨_, fill_of_ratio_pos total hpos, length_weave slots _, accepts_weave hlength (suits_of_keepsFloors h),
      fun _ => ?_⟩
    rw [Traced.value_map, total_weave hlength, minimumTotal]
    omega

/-- A fixed slot that overflows the row leaves a deficit, and the flexible slots their minimums. -/
theorem fill_fills_overflow :
    [fixed 30, withMinimum (flexible 1) 0, withMinimum (flexible 1) 2].length ≤ mostEntries ∧
      ∃ filled, fill 20 [fixed 30, withMinimum (flexible 1) 0, withMinimum (flexible 1) 2] = .ok filled ∧
        filled.value.length = 3 ∧ Cells.total filled.value = 32 := by
  refine ⟨by decide, ?_⟩
  obtain ⟨filled, hok, hlength, -, htotal⟩ :=
    (fill_fills 20 [fixed 30, withMinimum (flexible 1) 0, withMinimum (flexible 1) 2] (by decide)).2
      (Or.inr ⟨withMinimum (flexible 1) 0, by decide, by decide⟩)
  exact ⟨filled, hok, hlength, (htotal (by decide)).trans (by decide)⟩

end Allotment.Slot
