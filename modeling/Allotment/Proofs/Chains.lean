import Allotment.Proofs.Tiling

/-! Chains of divisions. A subdivision keeps every region that it ever had and adds the pieces of a division behind
    them, so that each region keeps its number. The regions that have not been divided are its leaves: where none is
    divided twice, they are those of a division that puts the pieces in the place of their region, in another order,
    and if the slots of each division fit, they tile the screen as well. -/

namespace Allotment
namespace Subdivision

/-- Divides the region of a given number, and adds its pieces. -/
def splitRegion (chain : Subdivision) (split : Split) : Except Refusal Subdivision := do
  let pieces ← chain.divide split.number split.axis split.slots
  return chain.extend pieces.value

/-- Divides one region after another. -/
def splitRegions (chain : Subdivision) (splits : List Split) : Except Refusal Subdivision :=
  splits.foldlM splitRegion chain

/-- The regions without those that have been divided, which are given by their numbers. -/
def undivided (chain : Subdivision) (divided : List Nat) : List Region :=
  (chain.regions.zipIdx.filter fun entry => entry.2 ∉ divided).map (·.1)

variable {root region : Region} {chain next leaves : Subdivision} {split : Split} {splits : List Split}
  {divided : List Nat}

/-! ### The regions of a chain -/

theorem splitRegion_eq_ok_iff :
    chain.splitRegion split = .ok next ↔ ∃ region pieces, chain.regions[split.number]? = some region ∧
      region.divide split.axis split.slots = .ok pieces ∧ next = chain.extend pieces.value := by
  rw [splitRegion, bind_eq_ok_iff]
  constructor
  · rintro ⟨pieces, hdivide, ⟨⟩⟩
    obtain ⟨region, hregion, hpieces⟩ := divide_eq_ok_iff.mp hdivide
    exact ⟨region, pieces, hregion, hpieces, rfl⟩
  · rintro ⟨region, pieces, hregion, hpieces, rfl⟩
    exact ⟨pieces, divide_eq_ok_iff.mpr ⟨region, hregion, hpieces⟩, rfl⟩

theorem splitRegions_cons_eq_ok_iff :
    chain.splitRegions (split :: splits) = .ok next ↔
      ∃ between, chain.splitRegion split = .ok between ∧ between.splitRegions splits = .ok next := by
  rw [splitRegions, List.foldlM_cons, bind_eq_ok_iff]
  rfl

/-- Every region keeps its number. -/
theorem prefix_splitRegions (h : chain.splitRegions splits = .ok next) : chain.regions <+: next.regions := by
  induction splits generalizing chain with
  | nil =>
    cases h
    exact List.prefix_refl _
  | cons split splits ih =>
    obtain ⟨between, hsplit, hlater⟩ := splitRegions_cons_eq_ok_iff.mp h
    obtain ⟨-, pieces, -, -, rfl⟩ := splitRegion_eq_ok_iff.mp hsplit
    exact (List.prefix_append _ _).trans (ih hlater)

/-- Numbers of regions that a chain has. -/
def Numbers (chain : Subdivision) (divided : List Nat) : Prop := ∀ number ∈ divided, number < chain.regions.length

theorem numbers_whole (root : Region) : (whole root).Numbers [] := fun _ hmem => nomatch hmem

theorem Numbers.append_singleton {number : Nat} (h : chain.Numbers divided)
    (hregion : chain.regions[number]? = some region) : chain.Numbers (divided ++ [number]) := by
  intro other hother
  rcases List.mem_append.mp hother with hother | hother
  · exact h other hother
  · rw [List.mem_singleton.mp hother]
    exact (List.getElem?_eq_some_iff.mp hregion).1

theorem Numbers.extend (h : chain.Numbers divided) (pieces : List Region) : (chain.extend pieces).Numbers divided := by
  intro number hnumber
  rw [Subdivision.extend, List.length_append]
  exact Nat.lt_add_right _ (h number hnumber)

theorem undivided_extend (h : chain.Numbers divided) (pieces : List Region) :
    (chain.extend pieces).undivided divided = chain.undivided divided ++ pieces := by
  have hnew : ((pieces.zipIdx (0 + chain.regions.length)).filter fun entry => entry.2 ∉ divided) =
      pieces.zipIdx (0 + chain.regions.length) := by
    refine List.filter_eq_self.mpr fun entry hentry => decide_eq_true fun hmem => ?_
    have hge := List.le_snd_of_mem_zipIdx hentry
    have := h _ hmem
    omega
  rw [undivided, extend, List.zipIdx_append, List.filter_append, List.map_append, hnew, List.zipIdx_map_fst]
  rfl

/-- A region that is divided is no longer among the undivided ones. -/
theorem perm_undivided {number : Nat} (h : chain.regions[number]? = some region) (hnew : number ∉ divided) :
    (chain.undivided divided).Perm (region :: chain.undivided (divided ++ [number])) := by
  have hmem : (region, number) ∈ chain.regions.zipIdx.filter fun entry => entry.2 ∉ divided :=
    List.mem_filter.mpr ⟨List.mem_zipIdx_iff_getElem?.mpr h, decide_eq_true hnew⟩
  have hnodup : (chain.regions.zipIdx.filter fun entry => entry.2 ∉ divided).Nodup :=
    (List.Nodup.of_map _ (List.nodup_zipIdx_map_snd chain.regions)).filter _
  have herase : (chain.regions.zipIdx.filter fun entry => entry.2 ∉ divided).erase (region, number) =
      chain.regions.zipIdx.filter fun entry => entry.2 ∉ divided ++ [number] := by
    rw [hnodup.erase_eq_filter, List.filter_filter]
    refine List.filter_congr fun entry hentry => ?_
    -- An entry is told by its number alone.
    have hnumber : entry = (region, number) ↔ entry.2 = number := by
      refine ⟨fun heq => congrArg Prod.snd heq, fun heq => Prod.ext ?_ heq⟩
      have hget := List.mem_zipIdx_iff_getElem?.mp hentry
      rw [heq, h] at hget
      exact (Option.some.inj hget).symm
    rw [Bool.eq_iff_iff]
    simp only [Bool.and_eq_true, bne_iff_ne, ne_eq, decide_eq_true_eq, List.mem_append, List.mem_singleton, not_or,
      hnumber]
    exact and_comm
  rw [undivided, undivided, ← herase]
  exact (List.perm_cons_erase hmem).map _

theorem not_mem_of_nodup {number : Nat} {later : List Nat} (h : (divided ++ [number] ++ later).Nodup) :
    number ∉ divided := fun hmem =>
  (List.nodup_append.mp h.of_append_left).2.2 _ hmem _ (List.mem_singleton_self _) rfl

/-! ### Chains and leaves -/

/-- The undivided regions of a chain are given leaves, in some order. -/
structure Mirrors (chain : Subdivision) (divided : List Nat) (leaves : Subdivision) : Prop where
  numbers : chain.Numbers divided
  perm : leaves.regions.Perm (chain.undivided divided)

theorem mirrors_whole (root : Region) : Mirrors (whole root) [] (whole root) where
  numbers := numbers_whole root
  perm := List.Perm.refl _

/-- What is done to an undivided region can be done to the leaf that it is. -/
theorem Mirrors.splitRegion (h : Mirrors chain divided leaves) (hnew : split.number ∉ divided)
    (hsplit : chain.splitRegion split = .ok next) :
    ∃ number leaves', leaves.splitLeaf { split with number } = .ok leaves' ∧
      Mirrors next (divided ++ [split.number]) leaves' := by
  obtain ⟨region, pieces, hregion, hpieces, rfl⟩ := splitRegion_eq_ok_iff.mp hsplit
  have hundivided := perm_undivided hregion hnew
  obtain ⟨number, hleaf⟩ :=
    List.mem_iff_getElem?.mp ((h.perm.trans hundivided).mem_iff.mpr List.mem_cons_self)
  have hnumbers := h.numbers.append_singleton hregion
  refine ⟨number, _, splitLeaf_of_divide hleaf hpieces, hnumbers.extend pieces.value, ?_⟩
  have hothers := ((perm_cons_take_drop hleaf).symm.trans (h.perm.trans hundivided)).cons_inv
  rw [undivided_extend hnumbers]
  exact (perm_take_pieces_drop _ _ _).symm.trans (hothers.append_right _)

/-- A run of divisions of undivided regions is a run of divisions of leaves, along the same axes and by the same slots,
    and ends in the same regions. -/
theorem Mirrors.splitRegions (h : Mirrors chain divided leaves)
    (hnodup : (divided ++ splits.map (·.number)).Nodup) (hsplits : chain.splitRegions splits = .ok next) :
    ∃ splits' leaves', splits'.map (fun split => (split.axis, split.slots)) =
        splits.map (fun split => (split.axis, split.slots)) ∧
      leaves.splitLeaves splits' = .ok leaves' ∧ Mirrors next (divided ++ splits.map (·.number)) leaves' := by
  induction splits generalizing chain divided leaves with
  | nil =>
    cases hsplits
    refine ⟨[], leaves, rfl, rfl, ?_⟩
    rwa [List.map_nil, List.append_nil]
  | cons split splits ih =>
    rw [List.map_cons, List.append_cons] at hnodup
    obtain ⟨between, hsplit, hlater⟩ := splitRegions_cons_eq_ok_iff.mp hsplits
    obtain ⟨number, between', hleaf, hbetween⟩ := h.splitRegion (not_mem_of_nodup hnodup) hsplit
    obtain ⟨splits', leaves', hsame, hleaves, hmirrors⟩ := ih hbetween hnodup hlater
    rw [← List.append_cons] at hmirrors
    refine ⟨{ split with number } :: splits', leaves', ?_, ?_, hmirrors⟩
    · rw [List.map_cons, List.map_cons, hsame]
    · rw [splitLeaves, List.foldlM_cons, hleaf]
      exact hleaves

/-- Where no region is divided twice, the undivided regions of a chain are the leaves of as many divisions of leaves. -/
theorem exists_splitLeaves (hnodup : (splits.map (·.number)).Nodup)
    (hsplits : (whole root).splitRegions splits = .ok chain) :
    ∃ splits' leaves, splits'.map (fun split => (split.axis, split.slots)) =
        splits.map (fun split => (split.axis, split.slots)) ∧
      (whole root).splitLeaves splits' = .ok leaves ∧
      leaves.regions.Perm (chain.undivided (splits.map (·.number))) := by
  obtain ⟨splits', leaves, hsame, hleaves, hmirrors⟩ := (mirrors_whole root).splitRegions hnodup hsplits
  exact ⟨splits', leaves, hsame, hleaves, hmirrors.perm⟩

/-! ### The screen -/

/-- The undivided regions of a chain tile the screen, and no region has any cell elsewhere. -/
structure Covers (root : Region) (chain : Subdivision) (divided : List Nat) : Prop where
  numbers : chain.Numbers divided
  tiles : root.Tiles (chain.undivided divided)
  holds : ∀ region ∈ chain.regions, ∀ cell, region.Holds cell → root.Holds cell

theorem covers_whole (h : root.OnScreen) : Covers root (whole root) [] where
  numbers := numbers_whole root
  tiles := Region.Tiles.refl h
  holds := fun _ hmem _ hcell => List.mem_singleton.mp hmem ▸ hcell

theorem Covers.splitRegion (h : Covers root chain divided) (hnew : split.number ∉ divided)
    (hregion : chain.regions[split.number]? = some region) (hfits : Slot.Fits (region.extent split.axis) split.slots) :
    ∃ next, chain.splitRegion split = .ok next ∧ Covers root next (divided ++ [split.number]) := by
  have htiles := h.tiles.perm (perm_undivided hregion hnew)
  obtain ⟨pieces, hok, hpieces⟩ := Region.tiles_divide (htiles.onScreen region List.mem_cons_self) hfits
  have hnumbers := h.numbers.append_singleton hregion
  have hnext : root.Tiles ((chain.extend pieces.value).undivided (divided ++ [split.number])) := by
    rw [undivided_extend hnumbers]
    exact htiles.replace hpieces
  refine ⟨_, splitRegion_eq_ok_iff.mpr ⟨region, pieces, hregion, hok, rfl⟩, hnumbers.extend pieces.value, hnext, ?_⟩
  intro piece hpiece cell hcell
  rcases List.mem_append.mp hpiece with hpiece | hpiece
  · exact h.holds piece hpiece cell hcell
  · refine hnext.holds_of_mem ?_ hcell
    rw [undivided_extend hnumbers]
    exact List.mem_append_right _ hpiece

/-- Each region that is to be divided is there when its turn comes, and the slots fit it. -/
def AdmitsRegions : Subdivision → List Split → Prop
  | _, [] => True
  | chain, split :: splits =>
    (∃ region, chain.regions[split.number]? = some region ∧ Slot.Fits (region.extent split.axis) split.slots) ∧
      ∀ next, chain.splitRegion split = .ok next → AdmitsRegions next splits

theorem Covers.splitRegions (h : Covers root chain divided) (hnodup : (divided ++ splits.map (·.number)).Nodup)
    (hadmits : chain.AdmitsRegions splits) :
    ∃ next, chain.splitRegions splits = .ok next ∧ Covers root next (divided ++ splits.map (·.number)) := by
  induction splits generalizing chain divided with
  | nil =>
    refine ⟨chain, rfl, ?_⟩
    rwa [List.map_nil, List.append_nil]
  | cons split splits ih =>
    obtain ⟨⟨region, hregion, hfits⟩, hlater⟩ := hadmits
    rw [List.map_cons, List.append_cons] at hnodup ⊢
    obtain ⟨between, hok, hbetween⟩ := h.splitRegion (not_mem_of_nodup hnodup) hregion hfits
    obtain ⟨next, hnext, hcovers⟩ := ih hbetween hnodup (hlater between hok)
    exact ⟨next, splitRegions_cons_eq_ok_iff.mpr ⟨between, hok, hnext⟩, hcovers⟩

/-- However regions are divided by slots that fit, none of them twice, no division fails, and the regions that are left
    undivided tile the screen. -/
theorem undivided_tile_root (root : Region) (splits : List Split)
    (hcols : root.col.toNat + root.width.toNat ≤ Cells.most)
    (hrows : root.row.toNat + root.height.toNat ≤ Cells.most) (hnodup : (splits.map (·.number)).Nodup)
    (hadmits : (whole root).AdmitsRegions splits) :
    ∃ chain, (whole root).splitRegions splits = .ok chain ∧ root.Tiles (chain.undivided (splits.map (·.number))) ∧
      ∀ region ∈ chain.regions, ∀ cell, region.Holds cell → root.Holds cell := by
  have hroot : root.OnScreen := fun axis => by cases axis <;> assumption
  obtain ⟨chain, hok, hcovers⟩ := (covers_whole hroot).splitRegions hnodup hadmits
  exact ⟨chain, hok, hcovers.tiles, hcovers.holds⟩

end Subdivision
end Allotment
