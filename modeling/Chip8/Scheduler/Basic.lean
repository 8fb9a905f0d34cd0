/-
# Deadlines

A scheduler has two periodic activities, instruction cycles and timer ticks.  While it runs it
keeps the time that has passed since it was started and the next deadline of each activity; an
idle scheduler keeps nothing but its clock.

The first cycle is due at once, the first timer tick one timer period after the start.  An
activity is due when its deadline lies before the time that has passed; of two activities due,
the one with the earlier deadline comes first, and the timer comes first on a tie.
-/
import Chip8.Clock

namespace Chip8

/-- One of the two periodic activities. -/
inductive Activity
  | cycle
  | timer
deriving DecidableEq

/-- How often each activity was carried out.  The counts are numbers without a bound; a slice shorter
than `2 ^ 64` nanoseconds since the start never takes them out of 64 bits
(`Console.tally_lt_of_ticked`). -/
@[ext]
structure Tally where
  cycles : Nat := 0
  timers : Nat := 0
deriving DecidableEq

/-- One more of an activity. -/
def Tally.count (t : Tally) : Activity → Tally
  | .cycle => { t with cycles := t.cycles + 1 }
  | .timer => { t with timers := t.timers + 1 }

/-- The period of an activity. -/
def Clock.periodOf (c : Clock) : Activity → Duration
  | .cycle => c.cyclePeriod
  | .timer => c.timerPeriod

/-! ## 1. Running schedulers -/

/-- The time that has passed since the start and the next deadlines. -/
@[ext]
structure Progress where
  elapsed : Duration
  nextCycle : Duration
  nextTimer : Duration
deriving DecidableEq

namespace Progress

/-- Progress at the start. -/
def initial (c : Clock) : Progress := ⟨.zero, .zero, c.timerPeriod⟩

/-- The next deadline of an activity. -/
def deadline (p : Progress) : Activity → Duration
  | .cycle => p.nextCycle
  | .timer => p.nextTimer

/-- The activity with the earlier deadline, the timer on a tie. -/
def first (p : Progress) : Activity := if p.nextTimer ≤ p.nextCycle then .timer else .cycle

/-- The activity to carry out next, if one is due. -/
def due (p : Progress) : Option Activity :=
  if p.deadline p.first < p.elapsed then some p.first else none

/-- Sets the next deadline of an activity. -/
def rearm (p : Progress) (a : Activity) (deadline : Duration) : Progress :=
  match a with
  | .cycle => { p with nextCycle := deadline }
  | .timer => { p with nextTimer := deadline }

/-- How much time lies between the deadlines and now, both added up. -/
def backlog (p : Progress) : Nat :=
  (p.elapsed.nanos - p.nextCycle.nanos) + (p.elapsed.nanos - p.nextTimer.nanos)

theorem deadline_lt_of_due {p : Progress} {a : Activity} (h : p.due = some a) :
    p.deadline a < p.elapsed := by
  unfold due at h
  split at h
  · rename_i hlt
    rw [Option.some.injEq] at h
    exact h ▸ hlt
  · exact absurd h (by simp)

/-- Rearming a due activity for a later deadline leaves less of the backlog. -/
theorem backlog_rearm_lt {p : Progress} {a : Activity} {d : Duration} (h : p.due = some a)
    (hd : p.deadline a < d) : (p.rearm a d).backlog < p.backlog := by
  have hlt := deadline_lt_of_due h
  cases a <;> simp only [deadline, Duration.lt_def, rearm, backlog] at * <;> omega

end Progress

/-! ## 2. Schedulers -/

/-- A scheduler: its clock and, while it runs, its progress. -/
@[ext]
structure Scheduler where
  clock : Clock
  progress : Option Progress := none
deriving DecidableEq

namespace Scheduler

/-- An idle scheduler. -/
def idle (c : Clock) : Scheduler := ⟨c, none⟩

/-- Whether the scheduler runs. -/
def isRunning (s : Scheduler) : Bool := s.progress.isSome

/-- The time that has passed since the start, none while idle. -/
def elapsed (s : Scheduler) : Duration := (s.progress.map Progress.elapsed).getD .zero

/-- The next deadline of an activity, zero while idle. -/
def deadline (s : Scheduler) (a : Activity) : Duration :=
  (s.progress.map fun p => p.deadline a).getD .zero

/-- The scheduler just started, whatever it did before. -/
def started (s : Scheduler) : Scheduler := { s with progress := some (.initial s.clock) }

/-- The scheduler at rest. -/
def stopped (s : Scheduler) : Scheduler := { s with progress := none }

end Scheduler

end Chip8
