/-
# Countdowns

The delay timer and the sound timer are countdowns: bytes that a timer tick lowers by one until
they reach zero.
-/
namespace Chip8

/-- A timer and the ticks it has left. -/
@[ext]
structure Countdown where
  left : UInt8
deriving DecidableEq

namespace Countdown

/-- A timer that has run out. -/
def stopped : Countdown := ⟨0⟩

/-- Whether there are ticks left. -/
def isActive (c : Countdown) : Bool := c.left ≠ 0

/-- One tick: one less, or still nothing. -/
def tick (c : Countdown) : Countdown := if c.left = 0 then c else ⟨c.left - 1⟩

/-- Whether the next tick is the one that runs the timer out. -/
def isLast (c : Countdown) : Bool := c.left = 1

/-- A tick subtracts one and stops at zero. -/
theorem toNat_tick (c : Countdown) : c.tick.left.toNat = c.left.toNat - 1 := by
  unfold tick
  split
  · rename_i h
    simp [h]
  · rename_i h
    have h0 : c.left.toNat ≠ 0 := fun e => h (UInt8.toNat_inj.mp (by simpa using e))
    have h1 : (1 : UInt8) ≤ c.left := by
      rw [UInt8.le_iff_toNat_le]
      simp
      omega
    simp [UInt8.toNat_sub_of_le _ _ h1]

end Countdown

end Chip8
