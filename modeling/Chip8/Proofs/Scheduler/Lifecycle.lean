/-
# The life of a scheduler

A scheduler is started and stopped by the host, and a cycle that faults stops it from inside the
firing loop, after its deadline has been moved and its cycle counted.  This module follows a
scheduler through any list of commands.

* `isRunning_obey` and `isRunning_obeyAll`: it runs exactly if the last thing that started or
  stopped it was a start.
* `HaltedBy` says what a fault leaves behind: the trace of the loop ends with the cycle that
  faulted, and the platform is told to be silent last.
* `FlatConsole` is a console whose three times are plain variables that are there whether the
  scheduler runs or not, so that a time could be left over in them.  `obey_flat` says that it
  behaves like the console that has no times while it is idle; so nothing is left over.
* A scheduler started after any history is the one just created and started (`lifecycle_obeyAll`).
-/
import Chip8.Proofs.History
import Chip8.Proofs.Machine.Diagnosis
import Chip8.Proofs.Scheduler.Deadlines

namespace Chip8

/-! ## 1. Times that are always there -/

/-- All three times zero. -/
def Progress.zero : Progress := ⟨.zero, .zero, .zero⟩

/-- A console with the four variables of its scheduler side by side. -/
@[ext]
structure FlatConsole (π : Type) where
  clock : Clock
  running : Bool
  times : Progress
  emulator : Emulator π

namespace FlatConsole

variable {π : Type}

/-- A console just created. -/
def idle (clock : Clock) (e : Emulator π) : FlatConsole π := ⟨clock, false, .zero, e⟩

/-- Sets the three times and the flag. -/
def start (c : FlatConsole π) : Step (FlatConsole π) Unit :=
  .quiet { c with running := true, times := .initial c.clock } [.started c.clock]

variable [Platform π]

/-- Clears the flag and the three times, and silences the tone. -/
def stop (c : FlatConsole π) : Step (FlatConsole π) Unit :=
  let silenced := c.emulator.tell false
  { result := ()
    state := { c with running := false, times := .zero, emulator := silenced.state }
    events :=
      (if c.running then [.notice (.stopped c.times.elapsed)] else []) ++ silenced.events }

/-- Lets time pass: the loop moves the deadlines in place. -/
def advance (c : FlatConsole π) (d : Duration) : Step (FlatConsole π) Passage :=
  if c.running then
    match c.times.elapsed.add? d with
    | none => ⟨.overflowed, c, []⟩
    | some elapsed =>
      let fired := Firing.run ⟨c.times.reach elapsed, c.emulator, {}, #[]⟩ c.clock
      let reached := { c with times := fired.1.progress, emulator := fired.1.emulator }
      match fired.2 with
      | .faulted fault =>
        ⟨.faulted fault, reached.stop.state, fired.1.events.toList ++ reached.stop.events⟩
      | passage => ⟨passage, reached, fired.1.events.toList⟩
  else ⟨.ticked {}, c, []⟩

/-- Obeys a command. -/
def obey (c : FlatConsole π) : Console.Command → Step (FlatConsole π) Console.Reply
  | .start => ⟨.done, c.start.state, c.start.events⟩
  | .stop => ⟨.done, c.stop.state, c.stop.events⟩
  | .advance d => ⟨.passed (c.advance d).result, (c.advance d).state, (c.advance d).events⟩
  | .perform op =>
    let done := c.emulator.perform op
    ⟨.answered done.result, { c with emulator := done.state }, done.events⟩

/-- Obeys a list of commands. -/
def obeyAll (c : FlatConsole π) (cmds : List Console.Command) :
    Step (FlatConsole π) (List Console.Reply) :=
  Step.iterate obey c cmds

end FlatConsole

namespace Console

variable {π : Type}

/-- The console with its scheduler laid out flat; an idle one has zero in all three times. -/
def flat (c : Console π) : FlatConsole π where
  clock := c.scheduler.clock
  running := c.scheduler.isRunning
  times := c.scheduler.progress.getD .zero
  emulator := c.emulator

/-- A start leaves nothing of what was before it but the clock. -/
theorem start_eq_of_clock (c c' : Console π) (hclock : c.scheduler.clock = c'.scheduler.clock)
    (hemulator : c.emulator = c'.emulator) : c.start.state = c'.start.state := by
  refine Console.ext (Scheduler.ext hclock ?_) hemulator
  exact congrArg (fun clock => some (Progress.initial clock)) hclock

theorem progress_of_idle {c : Console π} (h : c.scheduler.isRunning = false) :
    c.scheduler.progress = none := by
  rwa [Scheduler.isRunning, Option.isSome_eq_false_iff, Option.isNone_iff_eq_none] at h

theorem flat_of_running {c : Console π} {p : Progress} (hp : c.scheduler.progress = some p) :
    c.flat = ⟨c.scheduler.clock, true, p, c.emulator⟩ := by
  simp only [flat, Scheduler.isRunning, hp, Option.isSome_some, Option.getD_some]

theorem flat_of_idle {c : Console π} (hp : c.scheduler.progress = none) :
    c.flat = .idle c.scheduler.clock c.emulator := by
  simp only [flat, Scheduler.isRunning, hp, Option.isSome_none, Option.getD_none]
  rfl

variable [Platform π]

theorem stop_flat (c : Console π) : c.flat.stop = c.stop.map flat := by
  cases hp : c.scheduler.progress with
  | none =>
    rw [flat_of_idle hp]
    simp only [stop, Scheduler.isRunning, hp]
    rfl
  | some p =>
    rw [flat_of_running hp]
    simp only [stop, Scheduler.isRunning, Scheduler.elapsed, hp]
    rfl

/-- **A flat console lets time pass like the other**: the loop runs on the same three times, and a
fault in it clears all of them. -/
theorem advance_flat (c : Console π) (d : Duration) :
    c.flat.advance d = (c.advance d).map flat := by
  have hcases := c.advance_cases d
  cases hcases with
  | idle hp heq =>
    rw [heq, flat_of_idle hp]
    simp only [Step.map, flat_of_idle hp]
    rfl
  | overlong p hp hsum heq =>
    rw [heq]
    simp only [FlatConsole.advance, flat_of_running hp, hsum, Step.map, if_true]
  | halted p E f hp hsum hrun heq =>
    have hstop := stop_flat (c.landed ((c.firing p E).run c.scheduler.clock).1)
    rw [heq]
    unfold firing at hrun hstop ⊢
    simp only [FlatConsole.advance, flat_of_running hp, hsum, hrun, if_true]
    rw [flat_of_running rfl] at hstop
    simp only [landed] at hstop ⊢
    rw [hstop]
    rfl
  | through p E hp hsum hrun heq =>
    rw [heq]
    unfold firing at hrun ⊢
    simp only [FlatConsole.advance, flat_of_running hp, hsum, if_true]
    rfl

theorem obey_flat (c : Console π) (cmd : Command) : c.flat.obey cmd = (c.obey cmd).map flat := by
  cases cmd with
  | start => rfl
  | stop => simp only [FlatConsole.obey, obey, stop_flat, Step.map]
  | advance d => simp only [FlatConsole.obey, obey, advance_flat, Step.map]
  | perform op => rfl

/-! ## 2. What starts and what stops a scheduler -/

/-- The fault that a reply reports, if it reports one that stopped the scheduler. -/
def Reply.fault? : Reply → Option Fault
  | .passed (.faulted f) => some f
  | _ => none

namespace Moment

/-- Whether the scheduler was started. -/
def starts (x : Moment π) : Bool := x.input = .start

/-- Whether the scheduler was stopped, by the host or by a fault. -/
def stops (x : Moment π) : Bool :=
  x.input = .stop || (x.state.obey x.input).result.fault?.isSome

/-- Whether the scheduler was started or stopped. -/
def switches (x : Moment π) : Bool := x.starts || x.stops

end Moment

/-- Time that passes stops the scheduler only through a fault. -/
theorem isRunning_advance (c : Console π) (d : Duration) :
    (c.advance d).state.scheduler.isRunning
      = (c.scheduler.isRunning && (Reply.passed (c.advance d).result).fault?.isNone) := by
  have hcases := c.advance_cases d
  cases hcases with
  | idle hp heq =>
    rw [heq, Scheduler.isRunning, hp]
    rfl
  | overlong p hp hsum heq =>
    rw [heq]
    exact (Bool.and_true _).symm
  | halted p E f hp hsum hrun heq =>
    rw [heq]
    exact (Bool.and_false _).symm
  | through p E hp hsum hrun heq =>
    have hnone : (Reply.passed ((c.firing p E).run c.scheduler.clock).2).fault? = none := by
      cases hpassage : ((c.firing p E).run c.scheduler.clock).2 with
      | faulted f => exact absurd hpassage (hrun f)
      | ticked t | overflowed => rfl
    rw [heq]
    simp only [hnone, Scheduler.isRunning, hp]
    rfl

/-- **What a command does to the flag.** -/
theorem isRunning_obey (x : Moment π) :
    (x.state.obey x.input).state.scheduler.isRunning
      = if x.switches then x.starts else x.state.scheduler.isRunning := by
  obtain ⟨c, cmd⟩ := x
  cases cmd with
  | start | stop | perform op => rfl
  | advance d =>
    have hflag := c.isRunning_advance d
    have hswitches : Moment.switches (⟨c, .advance d⟩ : Moment π)
        = (Reply.passed (c.advance d).result).fault?.isSome := rfl
    have hstarts : Moment.starts (⟨c, .advance d⟩ : Moment π) = false := rfl
    show (c.advance d).state.scheduler.isRunning = _
    rw [hflag, hswitches, hstarts]
    cases (Reply.passed (c.advance d).result).fault? with
    | none => exact Bool.and_true _
    | some f => exact Bool.and_false _

/-- **The last thing that started or stopped a scheduler** decides whether it runs. -/
theorem isRunning_obeyAll {c : Console π} (hc : c.scheduler.isRunning = false)
    (cmds : List Command) :
    (c.obeyAll cmds).state.scheduler.isRunning
      = ((c.history cmds).filter Moment.switches).getLast?.any Moment.starts := by
  induction cmds using List.reverseRecOn with
  | nil => exact hc
  | append_singleton cmds cmd ih =>
    let x : Moment π := ⟨(c.obeyAll cmds).state, cmd⟩
    rw [state_obeyAll_concat, history_concat, List.filter_append]
    have hflag : ((c.obeyAll cmds).state.obey cmd).state.scheduler.isRunning = _ := isRunning_obey x
    rw [hflag]
    cases hswitches : x.switches with
    | true => simp [x, hswitches]
    | false => simp [x, hswitches, ih]

/-- No command changes the clock. -/
theorem clock_obey (c : Console π) (cmd : Command) :
    (c.obey cmd).state.scheduler.clock = c.scheduler.clock := by
  cases cmd with
  | start | stop | perform op => rfl
  | advance d => exact c.clock_advance d

theorem clock_obeyAll (c : Console π) (cmds : List Command) :
    (c.obeyAll cmds).state.scheduler.clock = c.scheduler.clock :=
  Step.iterate_invariant (P := fun c' : Console π => c'.scheduler.clock = c.scheduler.clock)
    (fun c' cmd _ h => (clock_obey c' cmd).trans h) rfl

/-! ## 3. Faults -/

/-- What a slice of time that ends in a fault leaves behind. -/
structure HaltedBy (c : Console π) (d : Duration) (f : Fault) : Prop where
  /-- The scheduler is stopped, -/
  stopped : (c.advance d).state.scheduler = c.scheduler.stopped
  /-- the program counter is where the fault says, -/
  place : (c.advance d).state.emulator.machine.pc = f.pc
  /-- the last thing fired is the cycle that faulted, and it is later in the order of the deadlines
  than all that was fired before it, -/
  last : ∃ front t, c.fired d = front ++ [⟨t, .cycle⟩] ∧
    (∀ x ∈ front, x.Before ⟨t, .cycle⟩) ∧
    (∀ pre u post, front = pre ++ ⟨u, .cycle⟩ :: post →
      ∀ g, (c.emulator.afterAll pre).tick.result ≠ .error (.fault g)) ∧
    (c.emulator.afterAll front).tick.result = .error (.fault f)
  /-- what was fired and the silence told after it are all that was done to the emulator, -/
  effect : (c.advance d).state.emulator
    = ((c.emulator.afterAll (c.fired d)).tell false).state
  /-- and that silence was the last call to the platform. -/
  silenced : (Event.calls (c.advance d).events).getLast? = some (.tone false)

/-- A fault stops the scheduler, and a stop is silent. -/
theorem stopped_of_faulted {c : Console π} {d : Duration} {f : Fault}
    (h : (c.advance d).result = .faulted f) :
    (c.advance d).state.scheduler = c.scheduler.stopped ∧
      (Event.calls (c.advance d).events).getLast? = some (.tone false) := by
  have hcases := c.advance_cases d
  cases hcases with
  | idle hp heq => rw [heq] at h; cases h
  | overlong p hp hsum heq => rw [heq] at h; cases h
  | through p E hp hsum hrun heq => rw [heq] at h; exact absurd h (hrun f)
  | halted p E g hp hsum hrun heq =>
    rw [heq]
    exact ⟨rfl, by simp [stop, Emulator.tell]⟩

theorem haltedBy_of_faulted {c : Console π} {d : Duration} {f : Fault}
    (h : (c.advance d).result = .faulted f) : c.HaltedBy d f := by
  obtain ⟨hsorted, hall, hfault, heffect, -⟩ := c.traced d
  obtain ⟨hstopped, hsilenced⟩ := stopped_of_faulted h
  obtain ⟨front, t, rest, hfired, hcarried, hnone, htick, hstate⟩ :=
    Emulator.carryOut_of_some ((hfault f).mp h)
  have hlast : c.fired d = front ++ [⟨t, .cycle⟩] := hall.symm.trans hcarried
  have hafter : c.emulator.afterAll (c.fired d) = (c.emulator.afterAll front).tick.state := by
    rw [hlast, Emulator.afterAll_append]
    rfl
  rw [h, hstate, ← hlast] at heffect
  refine ⟨hstopped, ?_, ⟨front, t, hlast, ?_, ?_, htick⟩, heffect, hsilenced⟩
  · rw [heffect, hafter]
    exact Emulator.pc_tick_of_fault htick
  · rw [hlast, List.pairwise_append] at hsorted
    exact fun x hx => hsorted.2.2 x hx _ List.mem_cons_self
  · rintro pre u post rfl
    exact Emulator.tick_of_carryOut_none hnone

/-! ## 4. Any list of commands -/

theorem obeyAll_flat (c : Console π) (cmds : List Command) :
    c.flat.obeyAll cmds = (c.obeyAll cmds).map flat :=
  Step.iterate_map fun x _ => obey_flat x.state x.input

/-- What holds after a run of commands on a console and on one with plain variables; `h` is what was
done in the run. -/
structure Lifecycle (clock : Clock) (run : Step (Console π) (List Reply))
    (flat : Step (FlatConsole π) (List Reply)) (h : List (Moment π)) : Prop where
  /-- The scheduler runs exactly if of the starts, the stops and the faults a start came last. -/
  running_iff : run.state.scheduler.isRunning = true ↔
    ∃ x, (h.filter Moment.switches).getLast? = some x ∧ x.input = .start
  /-- Both runs answer, report and call the same, and leave the same, -/
  agrees : flat = run.map Console.flat
  /-- so that none of the plain variables holds a time while the scheduler does not run, -/
  cleared : flat.state.running = false →
    flat.state.times.elapsed = .zero ∧ flat.state.times.nextCycle = .zero ∧
      flat.state.times.nextTimer = .zero
  /-- and no time that passes then, however long, changes or calls anything. -/
  inert : run.state.scheduler.isRunning = false → ∀ d,
    run.state.advance d = ⟨.ticked {}, run.state, []⟩ ∧
      flat.state.advance d = ⟨.ticked {}, flat.state, []⟩
  /-- A fault stops the scheduler. -/
  halted : ∀ d f, (run.state.advance d).result = .faulted f →
    (run.state.advance d).state.scheduler.isRunning = false ∧ run.state.HaltedBy d f
  /-- Nothing of the history is left after a start: all that follows is what follows the start of a
  scheduler just created. -/
  anew : ∀ later, run.state.start.state.obeyAll later
    = (Console.start ⟨.idle clock, run.state.emulator⟩).state.obeyAll later

/-- **The life of a scheduler**, through any list of commands, on any machine. -/
theorem lifecycle_obeyAll (clock : Clock) (e : Emulator π) (cmds : List Command) :
    let c : Console π := ⟨.idle clock, e⟩
    Lifecycle clock (c.obeyAll cmds) ((FlatConsole.idle clock e).obeyAll cmds)
      (c.history cmds) := by
  intro c
  have hagrees : (FlatConsole.idle clock e).obeyAll cmds = (c.obeyAll cmds).map flat :=
    c.obeyAll_flat cmds
  have hclock : (c.obeyAll cmds).state.scheduler.clock = clock := c.clock_obeyAll cmds
  refine ⟨?_, hagrees, ?_, ?_, ?_, ?_⟩
  · rw [isRunning_obeyAll rfl, Option.any_eq_true]
    simp only [Moment.starts, decide_eq_true_eq]
  · rw [hagrees]
    intro hidle
    have hflat := flat_of_idle (progress_of_idle hidle)
    simp only [Step.map, hflat]
    exact ⟨rfl, rfl, rfl⟩
  · intro hidle d
    have hadvance := advance_idle (progress_of_idle hidle) d
    refine ⟨hadvance, ?_⟩
    rw [hagrees]
    simp only [Step.map, advance_flat, hadvance]
  · intro d f hf
    have hhalted := haltedBy_of_faulted hf
    refine ⟨?_, hhalted⟩
    rw [hhalted.stopped]
    rfl
  · intro later
    rw [start_eq_of_clock _ ⟨.idle clock, (c.obeyAll cmds).state.emulator⟩ hclock rfl]

end Console

end Chip8
