import Mathlib.Order.Basic

namespace CoreJpeg

/-!
# Rasters

A raster numbers the places of a rectangle row by row.  This module gives the
number of units that cover a side, the places that a number has, and what
counting one place further does to its row and its column.
-/

/-- The units of a size that cover a side. -/
def units (side size : Nat) : Nat := (side + size - 1) / size

section Units

variable {side size : Nat}

/-- The only unit of a side that fits one. -/
theorem units_low
    (positive : 0 < side)
    (low : side ≤ size) :
    units side size = 1 := by
  have bound : side + size - 1 < 2 * size := by omega
  have least : size ≤ side + size - 1 := by omega
  rw [units, Nat.div_eq_of_lt_le]
  · omega
  · omega

/-- A side beyond one unit needs a second unit. -/
theorem two_le_units
    (positive : 0 < size)
    (high : size < side) :
    2 ≤ units side size := by
  rw [units, Nat.le_div_iff_mul_le positive]
  omega

end Units

section Places

variable {width : Nat}

/-- Two places of a raster with one number are the same place. -/
theorem raster_injective
    {x x' y y' : Nat}
    (inRow : x < width)
    (inRow' : x' < width)
    (same : y * width + x = y' * width + x') :
    x = x' ∧ y = y' := by
  have positive : 0 < width := Nat.lt_of_le_of_lt (Nat.zero_le x) inRow
  have rows := congrArg (· / width) same
  have columns := congrArg (· % width) same
  simp only [Nat.mul_comm _ width, Nat.mul_add_div positive,
    Nat.div_eq_of_lt inRow, Nat.div_eq_of_lt inRow', Nat.add_zero] at rows
  simp only [Nat.mul_comm _ width, Nat.mul_add_mod, Nat.mod_eq_of_lt inRow,
    Nat.mod_eq_of_lt inRow'] at columns
  exact ⟨columns, rows⟩

/-- A place of a raster has a number below the size of the raster. -/
theorem raster_lt
    {x y height : Nat}
    (inRow : x < width)
    (inColumn : y < height) :
    y * width + x < width * height := by
  calc y * width + x < y * width + width := Nat.add_lt_add_left inRow _
    _ = width * (y + 1) := by rw [Nat.mul_comm, Nat.mul_succ]
    _ ≤ width * height := Nat.mul_le_mul_left width inColumn

end Places

section Counting

variable {index group : Nat}

/-- Counting on within a group keeps the group. -/
theorem count_within
    (within : index % group + 1 < group) :
    (index + 1) / group = index / group ∧
      (index + 1) % group = index % group + 1 := by
  have split : index + 1 = index % group + 1 + group * (index / group) := by
    have whole := Nat.div_add_mod index group
    omega
  constructor
  · rw [split, Nat.add_mul_div_left _ _ (by omega),
      Nat.div_eq_of_lt within, Nat.zero_add]
  · rw [split, Nat.add_mul_mod_self_left, Nat.mod_eq_of_lt within]

/-- Counting on from the last of a group begins the next group. -/
theorem count_wrap
    (positive : 0 < group)
    (last : index % group + 1 = group) :
    (index + 1) / group = index / group + 1 ∧ (index + 1) % group = 0 := by
  have split : index + 1 = group * (index / group + 1) := by
    have whole := Nat.div_add_mod index group
    rw [Nat.mul_succ]
    omega
  rw [split]
  exact ⟨Nat.mul_div_cancel_left _ positive, Nat.mul_mod_right _ _⟩

end Counting

end CoreJpeg
