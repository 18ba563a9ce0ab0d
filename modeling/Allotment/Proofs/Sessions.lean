import Allotment.Session
import Allotment.Proofs.CapFilling
import Allotment.Proofs.ShrinkingTwice

/-! What a session keeps. A step that is refused and a look at parts leave the sizes and report nothing, so that after
    any steps the sizes are those of the last answer that names some, and a step that names none could as well be left
    out. Some changes take no cell from any slot, some give none, and some only keep the number of slots; what every
    change of a run does in this way, the run does from its first sizes to its last. -/

namespace Allotment
namespace Session
variable {session : Session}

/-- The sizes that an answer names. -/
def Answer.sizes? : Answer → Option (List Cells)
  | .sizes named => some named
  | .parts _ | .refused _ => none

/-! ### One step -/

/-- The sizes after a step are those that it answers, or else those before it. -/
theorem sizes_step (session : Session) (step : Step) :
    (session.step step).1.sizes = (session.step step).2.value.sizes?.getD session.sizes := by
  cases step with
  | change change =>
    rw [Session.step]
    cases session.changed change with
    | ok sizes => rfl
    | error error => rfl
  | parts budget => rfl

/-- A step that answers no sizes, refused or not a change, leaves the session and reports nothing. -/
theorem step_of_no_sizes {step : Step} (h : (session.step step).2.value.sizes? = none) :
    (session.step step).1 = session ∧ (session.step step).2.events = [] := by
  cases step with
  | change change =>
    rw [Session.step] at h ⊢
    cases hchanged : session.changed change with
    | ok sizes =>
      rw [hchanged] at h
      cases h
    | error error => exact ⟨rfl, rfl⟩
  | parts budget => exact ⟨rfl, rfl⟩

/-! ### Runs -/

theorem run_append (session : Session) (first second : List Step) :
    session.run (first ++ second) =
      (((session.run first).1.run second).1,
        ⟨(session.run first).2.value ++ ((session.run first).1.run second).2.value,
          (session.run first).2.events ++ ((session.run first).1.run second).2.events⟩) := by
  induction first generalizing session with
  | nil => rfl
  | cons step first ih =>
    rw [List.cons_append, run, run]
    dsimp only
    rw [ih, List.cons_append, List.append_assoc]

/-- Every step is answered. -/
theorem length_answers_run (session : Session) (steps : List Step) :
    (session.run steps).2.value.length = steps.length := by
  induction steps generalizing session with
  | nil => rfl
  | cons step steps ih =>
    rw [run]
    dsimp only
    rw [List.length_cons, List.length_cons, ih]

/-- After any steps the sizes are the last ones that were answered, or else the first. -/
theorem sizes_run (session : Session) (steps : List Step) :
    (session.run steps).1.sizes =
      ((session.run steps).2.value.filterMap Answer.sizes?).getLast?.getD session.sizes := by
  induction steps generalizing session with
  | nil => rfl
  | cons step steps ih =>
    have hsizes := sizes_step session step
    rw [run]
    dsimp only
    rw [ih, List.filterMap_cons]
    cases hanswer : (session.step step).2.value.sizes? with
    | none =>
      rw [hanswer] at hsizes
      rw [hsizes]
      rfl
    | some sizes =>
      rw [hanswer] at hsizes
      rw [hsizes, List.getLast?_cons]
      rfl

/-- A step that answers no sizes could be left out: all others are answered as they are, with the same events. -/
theorem run_without {before after : List Step} {idle : Step}
    (h : ((session.run before).1.step idle).2.value.sizes? = none) :
    (session.run (before ++ idle :: after)).1 = (session.run (before ++ after)).1 ∧
      (session.run (before ++ idle :: after)).2.value.eraseIdx before.length =
        (session.run (before ++ after)).2.value ∧
      (session.run (before ++ idle :: after)).2.events = (session.run (before ++ after)).2.events := by
  obtain ⟨hsession, hevents⟩ := step_of_no_sizes h
  rw [run_append, run_append, run]
  dsimp only
  rw [hsession, hevents]
  refine ⟨rfl, ?_, rfl⟩
  rw [← length_answers_run session before, List.eraseIdx_append_of_length_le (Nat.le_refl _), Nat.sub_self]
  rfl

/-! ### What a change does to the sizes -/

/-- As many sizes as others, and none of them larger. -/
structure NoneLarger (sizes others : List Cells) : Prop where
  length : sizes.length = others.length
  le : ∀ (i : Nat) (size other : Cells), sizes[i]? = some size → others[i]? = some other → size ≤ other

theorem NoneLarger.refl (sizes : List Cells) : NoneLarger sizes sizes where
  length := rfl
  le := by
    intro i size other hsize hother
    rw [hsize] at hother
    cases hother
    exact UInt64.le_refl _

theorem NoneLarger.trans {sizes between others : List Cells} (h : NoneLarger sizes between)
    (h' : NoneLarger between others) : NoneLarger sizes others where
  length := h.length.trans h'.length
  le := by
    intro i size other hsize hother
    obtain ⟨hi, -⟩ := List.getElem?_eq_some_iff.mp hsize
    have hi' : i < between.length := h.length ▸ hi
    have hbetween : between[i]? = some between[i] := List.getElem?_eq_getElem hi'
    exact UInt64.le_trans (h.le i size _ hsize hbetween) (h'.le i _ other hbetween hother)

/-- Changes that leave as many sizes as there are. -/
def Change.keepsCount : Change → Bool
  | .atLeast _ _ sizesAsMinimums => sizesAsMinimums
  | .fill .. => false
  | .atMost .. | .takeAway .. | .shrink .. | .rescale .. => true

/-- Changes that take no cell from a slot. -/
def Change.grows : Change → Bool
  | .atLeast _ _ sizesAsMinimums => sizesAsMinimums
  | .fill .. | .atMost .. | .takeAway .. | .shrink .. | .rescale .. => false

/-- Changes that give no cell to a slot. -/
def Change.narrows : Change → Bool
  | .atMost _ _ maximums => maximums.isNone
  | .takeAway .. | .shrink .. => true
  | .atLeast .. | .fill .. | .rescale .. => false

section Changes
variable {change : Change} {sizes : Traced (List Cells)} {total limit : Cells} {ratios : List Cells}
  {wraps : List Bool}

theorem changed_atLeast_eq (session : Session) (total : Cells) (ratios : List Cells) :
    session.changed (.atLeast total ratios true) = allotAtLeast total ratios (some session.sizes) := rfl

theorem changed_takeAway_eq_ok_iff :
    session.changed (.takeAway total ratios) = .ok sizes ↔ session.sizes.length = ratios.length ∧
      sizes = (cappedSizes total.toNat ratios session.sizes (session.sizes.map fun _ => 0)).map
        (session.sizes.zipWith Cells.minus ·) := by
  rw [changed, bind_eq_ok_iff]
  constructor
  · rintro ⟨cuts, hcuts, ⟨⟩⟩
    obtain ⟨hlength, -, rfl⟩ := allotAtMost_eq_ok_iff.mp hcuts
    exact ⟨hlength, rfl⟩
  · rintro ⟨hlength, rfl⟩
    exact ⟨_, allotAtMost_of_length total hlength ((List.length_map _).trans hlength), rfl⟩

theorem changed_shrink_eq_ok_iff :
    session.changed (.shrink wraps limit) = .ok sizes ↔ session.sizes.length = wraps.length ∧
      sizes = (Column.shrink limit (Column.table session.sizes wraps)).map Column.widths := by
  rw [changed, shrinkColumns, bind_eq_ok_iff]
  constructor
  · rintro ⟨⟨⟩, hlength, ⟨⟩⟩
    exact ⟨checkLength_eq_ok_iff.mp hlength, rfl⟩
  · rintro ⟨hlength, rfl⟩
    exact ⟨(), checkLength_eq_ok_iff.mpr hlength, rfl⟩

theorem noneLarger_takeAway (h : session.changed (.takeAway total ratios) = .ok sizes) :
    NoneLarger sizes.value session.sizes := by
  obtain ⟨-, rfl⟩ := changed_takeAway_eq_ok_iff.mp h
  rw [Traced.value_map]
  constructor
  · rw [List.length_zipWith, length_cappedSizes, List.length_map, min_self]
  · intro i size other hsize hother
    obtain ⟨before, cut, hbefore, -, rfl⟩ := List.getElem?_zipWith_eq_some.mp hsize
    rw [hbefore] at hother
    cases hother
    rw [UInt64.le_iff_toNat_le, Cells.toNat_minus]
    exact Nat.sub_le _ _

theorem noneLarger_shrink (h : session.changed (.shrink wraps limit) = .ok sizes) :
    NoneLarger sizes.value session.sizes := by
  obtain ⟨hlength, rfl⟩ := changed_shrink_eq_ok_iff.mp h
  have hnarrows := Column.narrows_shrink limit (Column.table session.sizes wraps)
  have hwidths := Column.widths_table hlength.symm
  rw [Traced.value_map]
  constructor
  · rw [Column.widths, List.length_map, hnarrows.length_eq, Column.length_table hlength.symm]
  · intro i size other hsize hother
    rw [← hwidths] at hother
    exact Column.width_le hnarrows hsize hother

theorem length_changed (hkeeps : change.keepsCount = true) (h : session.changed change = .ok sizes) :
    sizes.value.length = session.sizes.length := by
  cases change with
  | atLeast total ratios sizesAsMinimums =>
    cases hkeeps
    rw [changed_atLeast_eq] at h
    obtain ⟨hlength, -, rfl⟩ := allotAtLeast_eq_ok_iff.mp h
    rw [length_flooredSizes]
    exact hlength.symm
  | fill => cases hkeeps
  | atMost total ratios maximums =>
    rw [changed] at h
    obtain ⟨-, -, rfl⟩ := allotAtMost_eq_ok_iff.mp h
    rw [length_cappedSizes]
  | takeAway => exact (noneLarger_takeAway h).length
  | shrink => exact (noneLarger_shrink h).length
  | rescale total =>
    rw [changed] at h
    obtain ⟨-, -, rfl⟩ := allotAtLeast_eq_ok_iff.mp h
    rw [length_flooredSizes]

theorem noneLarger_of_grows (hgrows : change.grows = true) (h : session.changed change = .ok sizes)
    (hentries : session.sizes.length ≤ mostEntries) : NoneLarger session.sizes sizes.value := by
  cases change with
  | atLeast total ratios sizesAsMinimums =>
    cases hgrows
    rw [changed_atLeast_eq] at h
    obtain ⟨hlength, hpos, rfl⟩ := allotAtLeast_eq_ok_iff.mp h
    have hlength' : session.sizes.length = ratios.length := hlength
    have hkeeps := keepsFloors_flooredSizes hlength (underFloors_total total hlength (hlength' ▸ hentries) hpos)
    exact ⟨hlength.trans hkeeps.length.symm, hkeeps.minimum_le⟩
  | fill | atMost | takeAway | shrink | rescale => cases hgrows

theorem noneLarger_of_narrows (hnarrows : change.narrows = true) (h : session.changed change = .ok sizes)
    (hentries : session.sizes.length ≤ mostEntries) : NoneLarger sizes.value session.sizes := by
  cases change with
  | atMost total ratios maximums =>
    cases maximums with
    | some maximums => cases hnarrows
    | none =>
      rw [changed, Option.getD_none] at h
      obtain ⟨hlength, -, rfl⟩ := allotAtMost_eq_ok_iff.mp h
      have hunder := underCaps_total total hlength (hlength ▸ hentries)
      refine ⟨length_cappedSizes _ _ _ _, fun i size other hsize hother => ?_⟩
      obtain ⟨hi, -⟩ := List.getElem?_eq_some_iff.mp hother
      have hratio : ratios[i]? = some ratios[i] := List.getElem?_eq_getElem (hlength ▸ hi)
      -- A slot of ratio 0 keeps its size; the size of any other slot is its cap.
      by_cases hzero : ratios[i] = 0
      · rw [hzero] at hratio
        rw [getElem?_cappedSizes_of_zero _ _ _ hratio, hother] at hsize
        cases hsize
        exact UInt64.le_refl _
      · exact hunder.cappedSizes_le hlength hlength hratio (UInt64.pos_iff_ne_zero.mpr hzero) hother hsize
  | takeAway => exact noneLarger_takeAway h
  | shrink => exact noneLarger_shrink h
  | atLeast | fill | rescale => cases hnarrows

end Changes

/-! ### What a run does to the sizes -/

/-- What every change of a run does to the sizes, the run does, if it adds up and includes doing nothing. -/
theorem run_relates {R : List Cells → List Cells → Prop} (hrefl : ∀ sizes, R sizes sizes)
    (htrans : ∀ first second third, R first second → R second third → R first third) {steps : List Step}
    (h : ∀ (session : Session) (change : Change) (sizes : Traced (List Cells)), .change change ∈ steps →
      session.changed change = .ok sizes → R session.sizes sizes.value) (session : Session) :
    R session.sizes (session.run steps).1.sizes := by
  induction steps generalizing session with
  | nil => exact hrefl session.sizes
  | cons step steps ih =>
    have hfirst : R session.sizes (session.step step).1.sizes := by
      cases step with
      | parts budget => exact hrefl session.sizes
      | change change =>
        rw [Session.step]
        cases hchanged : session.changed change with
        | ok sizes => exact h session change sizes List.mem_cons_self hchanged
        | error error => exact hrefl session.sizes
    have hlater := ih (fun session change sizes hmem => h session change sizes (List.mem_cons_of_mem step hmem))
      (session.step step).1
    exact htrans _ _ _ hfirst hlater

/-- A run never changes the number of slots, unless by slots of its own. -/
theorem length_sizes_run {steps : List Step} (h : ∀ change, .change change ∈ steps → change.keepsCount = true)
    (session : Session) : (session.run steps).1.sizes.length = session.sizes.length :=
  run_relates (R := fun first last => last.length = first.length) (fun _ => rfl)
    (fun _ _ _ hfirst hlater => hlater.trans hfirst)
    (fun _ change _ hmem hchanged => length_changed (h change hmem) hchanged) session

/-- Where the sizes always count as minimums, no slot ends with less than it began with. -/
theorem noneLarger_run_of_grows {steps : List Step} (h : ∀ change, .change change ∈ steps → change.grows = true)
    (session : Session) (hentries : session.sizes.length ≤ mostEntries) :
    NoneLarger session.sizes (session.run steps).1.sizes := by
  refine run_relates (R := fun first last => first.length ≤ mostEntries → NoneLarger first last)
    (fun sizes _ => .refl sizes) ?_ ?_ session hentries
  · intro first second third hfirst hlater hentries
    have hnone := hfirst hentries
    exact hnone.trans (hlater (hnone.length ▸ hentries))
  · intro session change sizes hmem hchanged
    exact noneLarger_of_grows (h change hmem) hchanged

/-- Where sizes are only taken from or held below themselves, no slot ends with more than it began with. -/
theorem noneLarger_run_of_narrows {steps : List Step}
    (h : ∀ change, .change change ∈ steps → change.narrows = true) (session : Session)
    (hentries : session.sizes.length ≤ mostEntries) : NoneLarger (session.run steps).1.sizes session.sizes := by
  refine run_relates (R := fun first last => first.length ≤ mostEntries → NoneLarger last first)
    (fun sizes _ => .refl sizes) ?_ ?_ session hentries
  · intro first second third hfirst hlater hentries
    have hnone := hfirst hentries
    exact (hlater (hnone.length.symm ▸ hentries)).trans hnone
  · intro session change sizes hmem hchanged
    exact noneLarger_of_narrows (h change hmem) hchanged

end Session
end Allotment
