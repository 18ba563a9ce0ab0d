/-! Counts of cells: whole numbers of at most 64 bits. Arithmetic on them is exact in the integers and then
    taken to the nearest count, so it stops at either end and never wraps round. -/

namespace Allotment

/-- A number of cells on a screen or in a table, or a weight among such numbers. -/
abbrev Cells := UInt64

namespace Cells

/-- The largest count. -/
def most : Nat := 0xffffffffffffffff

/-- The count nearest to `n`: zero for a negative number, the largest count for one that is too large. -/
def nearest (n : Int) : Cells := UInt64.ofNat (min n.toNat most)

/-- The sum of two counts, or the largest count. -/
def plus (a b : Cells) : Cells := nearest (a.toNat + b.toNat)

/-- The difference of two counts, or zero. -/
def minus (a b : Cells) : Cells := nearest (a.toNat - b.toNat)

/-- The exact sum of a list of counts. -/
def total : List Cells → Nat
  | [] => 0
  | count :: counts => count.toNat + total counts

theorem toNat_le_most (a : Cells) : a.toNat ≤ most := by
  have := a.toNat_lt
  simp only [most]
  omega

theorem toNat_nearest (n : Int) : (nearest n).toNat = min n.toNat most := by
  have h : min n.toNat most < 2 ^ 64 := by simp only [most]; omega
  simp only [nearest, UInt64.toNat_ofNat']
  exact Nat.mod_eq_of_lt h

theorem nearest_toNat (a : Cells) : nearest a.toNat = a := by
  apply UInt64.toNat_inj.mp
  have := toNat_le_most a
  rw [toNat_nearest]
  omega

theorem toNat_plus (a b : Cells) : (plus a b).toNat = min (a.toNat + b.toNat) most := by
  rw [plus, toNat_nearest]
  omega

theorem toNat_plus_of_le {a b : Cells} (h : a.toNat + b.toNat ≤ most) : (plus a b).toNat = a.toNat + b.toNat := by
  rw [toNat_plus, Nat.min_eq_left h]

theorem toNat_minus (a b : Cells) : (minus a b).toNat = a.toNat - b.toNat := by
  have := toNat_le_most a
  rw [minus, toNat_nearest]
  omega

@[simp] theorem total_nil : total [] = 0 := rfl

@[simp] theorem total_cons (a : Cells) (counts : List Cells) : total (a :: counts) = a.toNat + total counts := rfl

end Cells
end Allotment
