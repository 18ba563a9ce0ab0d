import Allotment.Cells
import Allotment.Wide

/-! Proportional parts of a budget in whole numbers. Each weight gets the floor of its exact share; what the floors
    leave over goes, one unit each, to the shares with the largest remainders, of equal ones to the first. The budget
    may be negative: the floor is then the one below. -/

namespace Allotment.LargestRemainder

/-- The exact share of the weight at `place`: `floor` whole units, and `remainder` units more to be divided by the
    sum of the weights. -/
structure Share where
  place : Nat
  floor : Int
  remainder : Nat
  deriving DecidableEq, Repr

namespace Share

/-- The share of `weight`. With `budget = q * sum + r` it is `q * weight`, and the share of `r`, which is less than
    `sum`, on top of it. -/
def of (budget : Int) (sum : Nat) (place : Nat) (weight : Cells) : Share :=
  let extra := Wide.mulDiv (BitVec.ofInt 128 (budget % sum)) (BitVec.ofNat 128 weight.toNat) (BitVec.ofNat 128 sum)
  { place
    floor := Wide.clamp (Wide.clamp (budget / sum * weight.toNat) + extra.quotient.toNat)
    remainder := extra.remainder.toNat }

/-- The share `s` takes a unit that is left over no later than `t`. -/
def before (s t : Share) : Bool :=
  t.remainder < s.remainder || s.remainder == t.remainder && s.place ≤ t.place

end Share

/-- The shares of all weights. -/
def shares (budget : Int) (weights : List Cells) : List Share :=
  weights.mapIdx (Share.of budget (Cells.total weights))

/-- The sum of the floors, added up one after another. It wraps round where it leaves the range. -/
def floors (shares : List Share) : Int := shares.foldl (fun sum share => Wide.wrap (sum + share.floor)) 0

/-- The units that the floors leave over. Where their sum has wrapped round, the difference wraps back. -/
def leftover (budget : Int) (shares : List Share) : Int := Wide.wrap (budget - floors shares)

/-- The last share that takes one of `units` units left over, if any does. -/
def lastServed? (units : Nat) (shares : List Share) : Option Share :=
  ((shares.mergeSort Share.before).take units).getLast?

/-- The parts of `budget` in proportion to `weights`, in their order. Where no weight is positive every part is 0. -/
def parts (budget : Int) (weights : List Cells) : List Int :=
  if Cells.total weights = 0 then weights.map fun _ => 0
  else
    let shares := shares budget weights
    match lastServed? (leftover budget shares).toNat shares with
    | none => shares.map (·.floor)
    | some last => shares.map fun s => if s.before last then s.floor + 1 else s.floor

theorem length_parts (budget : Int) (weights : List Cells) : (parts budget weights).length = weights.length := by
  unfold parts
  split
  · simp
  · dsimp only
    split <;> simp [shares]

end Allotment.LargestRemainder
