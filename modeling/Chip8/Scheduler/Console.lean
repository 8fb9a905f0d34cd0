/-
# Consoles

A console is a scheduler that drives an emulator.  It measures no time itself: the host says how
much has passed, and `advance` carries out every activity that has become due, in the order of
the deadlines.

* A cycle that waits for a key counts like any other; a fault stops the scheduler.
* Stopping always tells the platform to be silent.
* A sum of times that cannot be represented ends `advance`.  If it is the sum of the time that has
  passed, nothing has changed; if it is a next deadline, all that was due before it is done, and of
  the timers also the tick whose next deadline it is.
-/
import Chip8.Emulator.Basic
import Chip8.Scheduler.Basic

namespace Chip8

/-- A scheduler and the emulator it drives. -/
@[ext]
structure Console (π : Type) where
  scheduler : Scheduler
  emulator : Emulator π

/-- How letting time pass ended. -/
inductive Passage
  /-- Everything due was carried out. -/
  | ticked (tally : Tally)
  /-- A cycle ended in a fault. -/
  | faulted (fault : Fault)
  /-- A sum of times cannot be represented. -/
  | overflowed
deriving DecidableEq

/-! ## 1. Carrying out what is due -/

/-- What firing has come to: the progress, the emulator, the tally and the events so far. -/
structure Firing (π : Type) where
  progress : Progress
  emulator : Emulator π
  tally : Tally := {}
  events : Array Event := #[]

namespace Firing

variable {π : Type} [Platform π]

/-- Counts the timers of the machine down. -/
def countDown (f : Firing π) : Firing π :=
  let done := f.emulator.countDown
  { f with emulator := done.state, events := f.events ++ done.events }

/-- Runs one instruction; the fault, if it ends in one. -/
def tick (f : Firing π) : Firing π × Option Fault :=
  let done := f.emulator.tick
  ({ f with emulator := done.state, events := f.events ++ done.events }, Stop.fault? done.result)

/-- Counts an activity and sets its next deadline. -/
def rearm (f : Firing π) (a : Activity) (deadline : Duration) : Firing π :=
  { f with progress := f.progress.rearm a deadline, tally := f.tally.count a }

/-- Carries out an activity whose next deadline is `deadline`; the fault, if it ends in one. -/
def next (f : Firing π) (a : Activity) (deadline : Duration) : Firing π × Option Fault :=
  match a with
  | .timer => (f.countDown.rearm .timer deadline, none)
  | .cycle => (f.rearm .cycle deadline).tick

/-- What is done of an activity whose next deadline is out of range: the timers are counted down
before their next deadline is looked for, an instruction runs after it. -/
def strand (f : Firing π) : Activity → Firing π
  | .timer => f.countDown
  | .cycle => f

/-- Carries out the due activities one after the other, until none is due or a cycle ends in a
fault.  Every period is at least a nanosecond, so the backlog shrinks each time. -/
def run (f : Firing π) (c : Clock) : Firing π × Passage :=
  match _hdue : f.progress.due with
  | none => (f, .ticked f.tally)
  | some a =>
    match _hsum : (f.progress.deadline a).add? (c.periodOf a) with
    | none => (f.strand a, .overflowed)
    | some deadline =>
      let after := f.next a deadline
      match after.2 with
      | some fault => (after.1, .faulted fault)
      | none => after.1.run c
termination_by f.progress.backlog
decreasing_by
  have hlater : f.progress.deadline a < deadline := by
    have hs := (Duration.add?_eq_some_iff.mp _hsum).2
    have hp : 1 ≤ (c.periodOf a).nanos := by
      cases a
      · exact Clock.one_le_period _
      · exact Clock.one_le_period _
    rw [Duration.lt_def]
    omega
  have hrearm : (f.next a deadline).1.progress = f.progress.rearm a deadline := by cases a <;> rfl
  exact hrearm ▸ Progress.backlog_rearm_lt _hdue hlater

/-- Nothing due: the firing is over. -/
theorem run_of_due_eq_none {c : Clock} {f : Firing π} (h : f.progress.due = none) :
    f.run c = (f, .ticked f.tally) := by
  rw [run]
  split
  · rfl
  · rename_i a ha
    exact absurd (h.symm.trans ha) (by simp)

/-- Something due: it is carried out, and the firing goes on unless that ended in a fault. -/
theorem run_of_due {c : Clock} {f : Firing π} {a : Activity} {d : Duration}
    (h : f.progress.due = some a) (hd : (f.progress.deadline a).add? (c.periodOf a) = some d) :
    f.run c = match (f.next a d).2 with
      | some fault => ((f.next a d).1, .faulted fault)
      | none => (f.next a d).1.run c := by
  rw [run]
  split
  · rename_i hn
    exact absurd (h.symm.trans hn) (by simp)
  · rename_i b hb
    obtain rfl : a = b := Option.some.inj (h.symm.trans hb)
    split
    · rename_i hn
      exact absurd (hd.symm.trans hn) (by simp)
    · rename_i e he
      obtain rfl : d = e := Option.some.inj (hd.symm.trans he)
      rfl

/-- Something due whose next deadline is out of range: the firing stops there. -/
theorem run_of_add?_eq_none {c : Clock} {f : Firing π} {a : Activity}
    (h : f.progress.due = some a) (hd : (f.progress.deadline a).add? (c.periodOf a) = none) :
    f.run c = (f.strand a, .overflowed) := by
  rw [run]
  split
  · rename_i hn
    exact absurd (h.symm.trans hn) (by simp)
  · rename_i b hb
    obtain rfl : a = b := Option.some.inj (h.symm.trans hb)
    split
    · rfl
    · rename_i d hsum
      exact absurd (hd.symm.trans hsum) (by simp)

end Firing

/-! ## 2. Operations -/

namespace Console

variable {π : Type}

/-- Starts the scheduler; a running one starts again from zero. -/
def start (c : Console π) : Step (Console π) Unit :=
  .quiet { c with scheduler := c.scheduler.started } [.started c.scheduler.clock]

/-- Stops the scheduler and silences the tone. -/
def stop [Platform π] (c : Console π) : Step (Console π) Unit :=
  let silenced := c.emulator.tell false
  { result := ()
    state := ⟨c.scheduler.stopped, silenced.state⟩
    events :=
      (if c.scheduler.isRunning then [.notice (.stopped c.scheduler.elapsed)] else [])
        ++ silenced.events }

/-- Lets time pass. -/
def advance [Platform π] (c : Console π) (d : Duration) : Step (Console π) Passage :=
  match c.scheduler.progress with
  | none => ⟨.ticked {}, c, []⟩
  | some p =>
    match p.elapsed.add? d with
    | none => ⟨.overflowed, c, []⟩
    | some elapsed =>
      let fired := Firing.run ⟨{ p with elapsed }, c.emulator, {}, #[]⟩ c.scheduler.clock
      let reached : Console π :=
        ⟨{ c.scheduler with progress := some fired.1.progress }, fired.1.emulator⟩
      match fired.2 with
      | .faulted fault =>
        let halted := reached.stop
        ⟨.faulted fault, halted.state, fired.1.events.toList ++ halted.events⟩
      | passage => ⟨passage, reached, fired.1.events.toList⟩

/-- Performs an operation on the emulator. -/
def perform [Platform π] (c : Console π) (op : Emulator.Operation) :
    Step (Console π) Emulator.Answer :=
  let done := c.emulator.perform op
  ⟨done.result, { c with emulator := done.state }, done.events⟩

/-- Tells the platform directly whether the tone should sound. -/
def tell [Platform π] (c : Console π) (on : Bool) : Step (Console π) Unit :=
  let told := c.emulator.tell on
  ⟨(), { c with emulator := told.state }, told.events⟩

end Console

end Chip8
