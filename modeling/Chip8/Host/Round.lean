/-
# Rounds of a host

A host measures the time since its last round and lets it pass for the console, but never more
than a tenth of a second: a host that was held up goes on where it was, and the rest of the time
is lost.  After that it takes the screen.
-/
import Chip8.Scheduler.Console

namespace Chip8.Host

/-- The most time that passes in one round. -/
def longestGap : Duration := .ofMillis 100

/-- The time that passes for the console when the host measures `gap`. -/
def granted (gap : Duration) : Duration := if longestGap < gap then longestGap else gap

/-- What is reported about a gap. -/
def delayNotices (gap : Duration) : List Notice :=
  if longestGap < gap then [.stalled gap (gap.minus longestGap)] else []

theorem granted_le_longestGap (gap : Duration) : granted gap ≤ longestGap := by
  unfold granted
  simp only [Duration.le_def, Duration.lt_def]
  split <;> omega

theorem granted_le (gap : Duration) : granted gap ≤ gap := by
  unfold granted
  simp only [Duration.le_def, Duration.lt_def]
  split <;> omega

end Chip8.Host

namespace Chip8.Console

variable {π : Type} [Platform π]

/-- Lets a measured gap pass, as far as it is granted. -/
def pass (c : Console π) (gap : Duration) : Step (Console π) Passage :=
  let advanced := c.advance (Host.granted gap)
  { advanced with events := (Host.delayNotices gap).map .notice ++ advanced.events }

/-- One round: a measured gap passes, then the screen is taken unless there was a fault. -/
def round (c : Console π) (gap : Duration) : Step (Console π) (Passage × Option Screen) :=
  let passed := c.pass gap
  match passed.result with
  | .ticked _ =>
    let taken := passed.state.emulator.takeScreen
    ⟨(passed.result, taken.result), { passed.state with emulator := taken.state },
      passed.events ++ taken.events⟩
  | _ => { passed with result := (passed.result, none) }

end Chip8.Console
