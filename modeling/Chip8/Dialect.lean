/-
# Dialects

Programs were written for machines that disagree on two points, and a dialect settles both:
which register a shift reads, and whether a bulk transfer moves the index register.
-/
import Chip8.Text.Labelled

namespace Chip8

/-- The choices on which machines differ. -/
structure Dialect where
  /-- Whether `8XY6` and `8XYE` shift VY into VX; otherwise they shift VX itself. -/
  shiftReadsY : Bool := false
  /-- Whether `FX55` and `FX65` leave I just past the last byte; otherwise they leave I alone. -/
  transferMovesIndex : Bool := true
deriving DecidableEq

/-- The dialect with its two settings. -/
def Dialect.text (d : Dialect) : String :=
  labelled "Quirks"
    [.flag "shift_uses_vy" d.shiftReadsY,
     .flag "increment_index_on_bulk_transfer" d.transferMovesIndex]

end Chip8
