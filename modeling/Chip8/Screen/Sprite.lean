/-
# Sprites

A sprite is a list of rows, a byte each.  Drawn at a cell, it switches the cells under its set
bits: bit `k` of row `r` falls on the cell `origin + 64 * r + k`.  Cells are numbered row by row,
so a sprite that crosses the right edge goes on in the line below; cells past the last one are
dropped.

`spriteCells` lists the cells under the set bits and `draw` switches a list of cells, telling
whether one of them was lit.
-/
import Chip8.Screen.Basic

namespace Chip8.Screen

/-- The cells under the set bits of a sprite drawn at a cell, row by row. -/
def spriteCells (origin : Nat) : List UInt8 → List Nat
  | [] => []
  | row :: rest =>
    ((List.range 8).filter (bit row)).map (origin + ·) ++ spriteCells (origin + width) rest

/-- Switches the cells of a list in order; also whether that switched off a lit one. -/
def draw (s : Screen) : List Nat → Screen × Bool
  | [] => (s, false)
  | c :: rest =>
    let switched := s.plot c true
    let drawn := draw switched.1 rest
    (drawn.1, switched.2.getD false || drawn.2)

/-- The screen after drawing is the screen with each listed cell flipped in turn. -/
theorem draw_fst (s : Screen) (cs : List Nat) : (s.draw cs).1 = cs.foldl flip s := by
  induction cs generalizing s with
  | nil => rfl
  | cons c rest ih => exact ih _

end Chip8.Screen
