import Allotment.Cells
import Allotment.Text.Quoted

/-! What an allotment can be refused for, and the two checks that refuse it. Running out of space is no error:
    floors above the total give sizes that overflow it, caps below it sizes that fall short. -/

namespace Allotment

/-! ### Steps that succeed -/

section Except
variable {ε α β : Type} {x : Except ε α} {b : β}

theorem bind_eq_ok_iff {f : α → Except ε β} : x >>= f = .ok b ↔ ∃ a, x = .ok a ∧ f a = .ok b := by
  cases x with
  | error e => exact iff_of_false (fun h => nomatch h) fun ⟨_, h, _⟩ => nomatch h
  | ok a => exact ⟨fun h => ⟨a, rfl, h⟩, fun ⟨_, ha, h⟩ => Except.ok.inj ha ▸ h⟩

theorem map_eq_ok_iff {f : α → β} : x.map f = .ok b ↔ ∃ a, x = .ok a ∧ f a = b := by
  cases x with
  | error e => exact iff_of_false (fun h => nomatch h) fun ⟨_, h, _⟩ => nomatch h
  | ok a => exact ⟨fun h => ⟨a, rfl, Except.ok.inj h⟩, fun ⟨_, ha, h⟩ => congrArg _ (Except.ok.inj ha ▸ h)⟩

end Except

/-! ### Refusals -/

/-- The causes of a refused allotment. -/
inductive AllotError
  /-- None of `slots` ratios is positive, so there is nothing to be proportional to. -/
  | zeroRatioSum (slots : Nat)
  /-- The list of `what` does not have one entry for each ratio. -/
  | lengthMismatch (what : String) (expected actual : Nat)
  deriving DecidableEq, Repr

namespace AllotError

/-- The sentence that tells a reader what went wrong. -/
def message : AllotError → String
  | .zeroRatioSum slots => s!"Can't split space across {slots} slot(s) when no ratio is positive"
  | .lengthMismatch what expected actual => s!"Expected {expected} {what}, got {actual}"

/-- The name of the cause. -/
def name : AllotError → String
  | .zeroRatioSum _ => "ZeroRatioSum"
  | .lengthMismatch .. => "LengthMismatch"

/-- The cause with all its data. -/
def details : AllotError → String
  | .zeroRatioSum slots => s!"ZeroRatioSum \x7b slot_count: {slots} \x7d"
  | .lengthMismatch what expected actual =>
    s!"LengthMismatch \x7b what: {Text.quoted what}, expected: {expected}, actual: {actual} \x7d"

/-- The code under which a reader can look the cause up. -/
def code : AllotError → String
  | .zeroRatioSum _ => "r3bl_ratio::zero_ratio_sum"
  | .lengthMismatch .. => "r3bl_ratio::length_mismatch"

/-- What a reader can do about it. -/
def help : AllotError → String
  | .zeroRatioSum _ => "Give at least one flexible slot a ratio greater than 0, or give every slot a fixed size"
  | .lengthMismatch .. => "Pass exactly one entry per ratio, in the same order"

end AllotError

/-- Some ratio must be positive. -/
def checkRatios (ratios : List Cells) : Except AllotError Unit :=
  if ratios.any (0 < ·) then .ok () else .error (.zeroRatioSum ratios.length)

/-- The list of `what` must have `expected` entries. -/
def checkLength (what : String) (expected actual : Nat) : Except AllotError Unit :=
  if expected = actual then .ok () else .error (.lengthMismatch what expected actual)

theorem checkRatios_eq_ok_iff {ratios : List Cells} : checkRatios ratios = .ok () ↔ ∃ ratio ∈ ratios, 0 < ratio := by
  have hany : (ratios.any fun ratio => 0 < ratio) = true ↔ ∃ ratio ∈ ratios, 0 < ratio := by
    simp only [List.any_eq_true, decide_eq_true_eq]
  rw [← hany]
  unfold checkRatios
  split
  · exact iff_of_true rfl ‹_›
  · exact iff_of_false (fun h => nomatch h) ‹_›

theorem checkLength_eq_ok_iff {what : String} {expected actual : Nat} :
    checkLength what expected actual = .ok () ↔ expected = actual := by
  simp [checkLength]

end Allotment
