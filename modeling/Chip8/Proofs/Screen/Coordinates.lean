/-
# Cells by column and line

`pixel?` checks the column and computes the number of the cell in 64 bits; that the line is on the
screen is left to the bound on cells.  The product with the line may not fit, and then there is no
answer: neither a pixel nor that there is none.

* `pixel?_eq` says what comes of every column and every line; `pixel_stops_past_last_line` is a line
  far below the screen of which nothing comes.
* Arithmetic that wraps around goes on there: `wrappedPixel?` looks at a pixel with such arithmetic,
  and `wrappedPixel?_eq` says that it takes the line modulo `2 ^ 58`.
* `pixel_at_column_and_line` says where there is a pixel, in both ways.
-/
import Mathlib
import Chip8.Screen.Basic

namespace Chip8.Screen

/-- Whether the cell at a column and a line is lit, with the number of the cell modulo `2 ^ 64`. -/
def wrappedPixel? (s : Screen) (x y : UInt64) : Option Bool :=
  if x < 64 then s.cell? (x + y * 64).toNat else none

/-! ## 1. The number of a cell -/

section Column

variable {x y : UInt64} (hx : x < 64)

include hx

/-- Lines that differ by a multiple of `2 ^ 58` have the same number. -/
theorem toNat_cellNumber : (x + y * 64).toNat = x.toNat + width * (y.toNat % 2 ^ 58) := by
  have hcolumn : x.toNat < 64 := hx
  have hwidth : (64 : UInt64).toNat = 64 := rfl
  rw [UInt64.toNat_add, UInt64.toNat_mul, hwidth, width]
  omega

/-- Below `2 ^ 58` the number fits: the product is a multiple of 64, so with a column added it is
still in range. -/
theorem pixel?_of_lt (s : Screen) (hy : y.toNat < 2 ^ 58) :
    s.pixel? x y = .ok (s.cell? (x.toNat + width * y.toNat)) := by
  have hcolumn : x.toNat < 64 := hx
  have hwidth : (64 : UInt64).toNat = 64 := rfl
  have hproduct : Checked.times y 64 = .ok (y * 64) := by
    refine if_pos ?_
    rw [hwidth, UInt64.size]
    omega
  have hsum : Checked.plus x (y * 64) = .ok (x + y * 64) := by
    refine if_pos ?_
    rw [UInt64.toNat_mul, hwidth, UInt64.size]
    omega
  rw [pixel?, if_pos hx, hproduct]
  show (Checked.plus x (y * 64)).bind _ = _
  rw [hsum, ← Nat.mod_eq_of_lt hy, ← toNat_cellNumber hx]
  rfl

/-- From there on the product does not. -/
theorem pixel?_of_le (s : Screen) (hy : 2 ^ 58 ≤ y.toNat) : s.pixel? x y = .error .product := by
  have hwidth : (64 : UInt64).toNat = 64 := rfl
  have hproduct : Checked.times y 64 = .error .product := by
    refine if_neg ?_
    rw [hwidth, UInt64.size]
    omega
  rw [pixel?, if_pos hx, hproduct]
  rfl

end Column

/-! ## 2. Where there is a pixel -/

/-- **What comes of a column and a line.** -/
theorem pixel?_eq (s : Screen) (x y : UInt64) :
    s.pixel? x y
      = if x < 64 then
          if y.toNat < 2 ^ 58 then .ok (s.cell? (x.toNat + width * y.toNat)) else .error .product
        else .ok none := by
  by_cases hx : x < 64
  · rcases Nat.lt_or_ge y.toNat (2 ^ 58) with hy | hy
    · rw [pixel?_of_lt hx s hy, if_pos hx, if_pos hy]
    · rw [pixel?_of_le hx s hy, if_pos hx, if_neg (Nat.not_lt_of_le hy)]
  · rw [pixel?, if_neg hx, if_neg hx]
    rfl

/-- **What is seen with arithmetic that wraps around.** -/
theorem wrappedPixel?_eq (s : Screen) (x y : UInt64) :
    s.wrappedPixel? x y
      = if x < 64 then s.cell? (x.toNat + width * (y.toNat % 2 ^ 58)) else none := by
  unfold wrappedPixel?
  split
  · rename_i hx
    rw [toNat_cellNumber hx]
  · rfl

theorem isSome_cell?_iff {s : Screen} {c : Nat} : (s.cell? c).isSome ↔ c < cells := by
  rw [Option.isSome_iff_ne_none, ne_eq, cell?_eq_none_iff, Nat.not_le]

theorem isSome_wrappedPixel?_iff {s : Screen} {x y : UInt64} :
    (s.wrappedPixel? x y).isSome ↔ x < 64 ∧ y.toNat % 2 ^ 58 < height := by
  rw [wrappedPixel?_eq]
  by_cases hx : x < 64
  · have hcolumn : x.toNat < 64 := hx
    rw [if_pos hx, isSome_cell?_iff, cells, width, height]
    simp only [hx, true_and]
    omega
  · simp [hx]

/-- Where there is an answer, the wrapped number is the number. -/
theorem wrappedPixel?_of_ok {s : Screen} {x y : UInt64} {seen : Option Bool}
    (h : s.pixel? x y = .ok seen) : s.wrappedPixel? x y = seen := by
  rw [pixel?_eq] at h
  rw [wrappedPixel?_eq]
  split at h
  · rename_i hx
    split at h
    · rename_i hy
      rw [if_pos hx, Nat.mod_eq_of_lt hy]
      exact Except.ok.inj h
    · cases h
  · rename_i hx
    rw [if_neg hx]
    exact Except.ok.inj h

/-- What it means that a column and a line say where a pixel is. -/
structure Addressed (s : Screen) (x y : UInt64) : Prop where
  /-- There is no answer exactly if the column exists and the product with the line does not fit; the
  sum always fits. -/
  error_iff : ∀ o, s.pixel? x y = .error o ↔ o = .product ∧ x < 64 ∧ 2 ^ 58 ≤ y.toNat
  /-- Where there is an answer, it is a pixel exactly if column and line are on the screen, -/
  isSome_iff : ∀ seen, s.pixel? x y = .ok seen → (seen.isSome ↔ x < 64 ∧ y < 32)
  /-- and those of the screen are all answered with the cell of their number. -/
  pixel : x < 64 → y < 32 → s.pixel? x y = .ok (s.cell? (x.toNat + 64 * y.toNat))
  /-- Arithmetic that wraps around always answers, and with the same where the other does, -/
  wrapped : ∀ seen, s.pixel? x y = .ok seen → s.wrappedPixel? x y = seen
  /-- but sees a pixel wherever the line is on the screen modulo `2 ^ 58`. -/
  wrapped_isSome_iff : (s.wrappedPixel? x y).isSome ↔ x < 64 ∧ y.toNat % 2 ^ 58 < 32

/-- **Where there is a pixel**, for every column and every line that 64 bits hold. -/
theorem pixel_at_column_and_line (s : Screen) (x y : UInt64) : s.Addressed x y where
  error_iff o := by
    by_cases hx : x < 64
    · rcases Nat.lt_or_ge y.toNat (2 ^ 58) with hy | hy
      · rw [pixel?_of_lt hx s hy]
        exact ⟨nofun, fun h => absurd h.2.2 (Nat.not_le_of_lt hy)⟩
      · rw [pixel?_of_le hx s hy, Except.error.injEq]
        exact ⟨fun h => ⟨h.symm, hx, hy⟩, fun h => h.1.symm⟩
    · rw [pixel?_eq, if_neg hx]
      exact ⟨nofun, fun h => absurd h.2.1 hx⟩
  isSome_iff seen h := by
    -- the wrapped number is the number, and lines below `2 ^ 58` do not come again
    have hwrapped := wrappedPixel?_of_ok h
    have hline : y < 32 ↔ y.toNat < 32 := Iff.rfl
    rw [← hwrapped, isSome_wrappedPixel?_iff, hline, height]
    refine and_congr_right fun hx => ?_
    rcases Nat.lt_or_ge y.toNat (2 ^ 58) with hy | hy
    · rw [Nat.mod_eq_of_lt hy]
    · rw [pixel?_of_le hx s hy] at h
      cases h
  pixel hx hy := by
    have hline : y.toNat < 32 := hy
    exact pixel?_of_lt hx s (by omega)
  wrapped _ := wrappedPixel?_of_ok
  wrapped_isSome_iff := isSome_wrappedPixel?_iff

/-- The line numbered `2 ^ 58` is not on the screen, and yet it is not answered with no pixel: the
product does not fit, and the number modulo `2 ^ 64` is that of a cell. -/
theorem pixel_stops_past_last_line :
    blank.pixel? 0 (2 ^ 58) = .error .product ∧
      ¬ ((blank.wrappedPixel? 0 (2 ^ 58)).isSome ↔ (0 : UInt64) < 64 ∧ (2 ^ 58 : UInt64) < 32) := by
  decide +kernel

end Chip8.Screen
