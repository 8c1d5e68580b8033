import Mathlib.Algebra.Order.Floor.Ring
import Mathlib.Tactic.Linarith

/-! # Rounding to natural numbers

The nearest natural number, with halves rounded up. Cutting a range at rounded
positions gives each part its exact length up to one.
-/

namespace Irohsion.Rounding

variable {K : Type u} [Field K] [LinearOrder K] [IsStrictOrderedRing K] [FloorRing K]

/-- The nearest natural number; below zero this is zero. -/
def nearest (value : K) : Nat := ⌊value + 1 / 2⌋.toNat

theorem nearest_mono {first second : K} (ordered : first ≤ second) :
    nearest first ≤ nearest second :=
  Int.toNat_le_toNat (Int.floor_le_floor (by linarith))

@[simp] theorem nearest_natCast (count : Nat) : nearest (count : K) = count := by
  have floor : ⌊(count : K) + 1 / 2⌋ = (count : Int) := by
    rw [Int.floor_eq_iff]
    constructor
    · rw [Int.cast_natCast]
      linarith
    · rw [Int.cast_natCast]
      linarith
  rw [nearest, floor, Int.toNat_natCast]

/-- The rounded value is within one half of the value. -/
theorem nearest_bounds {value : K} (nonneg : 0 ≤ value) :
    value - 1 / 2 < nearest value ∧ nearest value ≤ value + 1 / 2 := by
  have floorNonneg : 0 ≤ ⌊value + 1 / 2⌋ := Int.floor_nonneg.mpr (by linarith)
  have cast : (nearest value : K) = ⌊value + 1 / 2⌋ := by
    rw [← Int.cast_natCast, nearest, Int.toNat_of_nonneg floorNonneg]
  rw [cast]
  constructor
  · have above := Int.lt_floor_add_one (value + 1 / 2)
    linarith
  · exact Int.floor_le _

/-- The distance between two rounded positions differs from the distance between
the positions by at most one. -/
theorem nearest_distance {first second : K} (nonneg : 0 ≤ first) (ordered : first ≤ second) :
    |((nearest second - nearest first : Nat) : K) - (second - first)| ≤ 1 := by
  have firstBounds := nearest_bounds nonneg
  have secondBounds := nearest_bounds (le_trans nonneg ordered)
  rw [Nat.cast_sub (nearest_mono ordered), abs_le]
  constructor
  · linarith
  · linarith

end Irohsion.Rounding
