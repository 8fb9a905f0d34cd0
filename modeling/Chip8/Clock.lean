/-
# The two rates

A machine has two periodic activities: it executes instructions at the cycle rate and counts its
timers down at the timer rate.  A rate becomes a period in whole nanoseconds, rounded down but
never shorter than one nanosecond (`one_le_period`), so a schedule built from periods always moves
forward, and never longer than a second (`period_le_second`), so a rate of zero counts as one.
-/
import Chip8.Duration
import Chip8.Text.Labelled

namespace Chip8

/-- Rates of the two activities, in activations per second. -/
structure Clock where
  cycleHz : Nat := 250
  timerHz : Nat := 60
deriving DecidableEq

namespace Clock

/-- The period of a rate: a second divided by the rate, at least a nanosecond. -/
def period (hz : Nat) : Duration := ⟨max 1 (1000000000 / max 1 hz)⟩

/-- The time from one instruction to the next. -/
def cyclePeriod (c : Clock) : Duration := period c.cycleHz

/-- The time from one timer tick to the next. -/
def timerPeriod (c : Clock) : Duration := period c.timerHz

theorem one_le_period (hz : Nat) : 1 ≤ (period hz).nanos := Nat.le_max_left ..

theorem period_le_second (hz : Nat) : (period hz).nanos ≤ 1000000000 :=
  Nat.max_le.mpr ⟨by decide, Nat.div_le_self ..⟩

/-- The clock with its two rates. -/
def text (c : Clock) : String :=
  labelled "Clock" [.number "cycle_hz" c.cycleHz, .number "timer_hz" c.timerHz]

end Clock

end Chip8
