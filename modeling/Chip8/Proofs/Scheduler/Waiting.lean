/-
# Waiting while time passes

A cycle that waits for a key counts like any other and does not stop the scheduler.  Nothing that a
scheduler carries out touches the keys, so a slice in which a machine begins to wait ends with the
machine waiting.

* `Emulator.afterAll_of_waiting`: the activities of a scheduler leave a machine that waits
  suspended, and none of them faults (`Emulator.carryOut_of_waiting`).
* `Console.advance_of_waiting` is that for a slice from any cycle on, `Console.waits_obey` for any
  command.
* `Console.isDown_obeyAll` says which keys are down after a list of commands.
* `Emulator.AwaitsKey` says all that waiting for a key means, with and without a scheduler.
-/
import Chip8.Proofs.Machine.Waiting
import Chip8.Proofs.Scheduler.Lifecycle
import Chip8.Proofs.Scheduler.Termination

namespace Chip8

/-! ## 1. Activities -/

/-- Counting down leaves the machine waiting for what it waits for. -/
theorem Machine.obstacle_countDown (m : Machine) : m.countDown.obstacle? = m.obstacle? := rfl

namespace Emulator

variable {π : Type} [Platform π]

theorem act_of_waiting {e : Emulator π} (h : e.machine.obstacle? = some .waiting) (a : Activity) :
    (e.act a).result = none ∧ (e.act a).state.machine.obstacle? = some .waiting ∧
      e.machine.Suspended (e.act a).state.machine := by
  cases a with
  | timer => exact ⟨rfl, e.machine.obstacle_countDown.trans h, e.machine.suspended_with ..⟩
  | cycle =>
    have hmachine : e.tick.state.machine = e.machine := by rw [state_tick_of_obstacle h]
    show Stop.fault? e.tick.result = none ∧ e.tick.state.machine.obstacle? = some .waiting ∧
      e.machine.Suspended e.tick.state.machine
    rw [result_tick_of_obstacle h, hmachine]
    exact ⟨rfl, h, .refl _⟩

/-- **What a scheduler carries out keeps a machine waiting.** -/
theorem afterAll_of_waiting {e : Emulator π} (h : e.machine.obstacle? = some .waiting)
    (ds : List Deadline) :
    (e.afterAll ds).machine.obstacle? = some .waiting ∧
      e.machine.Suspended (e.afterAll ds).machine := by
  induction ds generalizing e with
  | nil => exact ⟨h, .refl _⟩
  | cons d ds ih =>
    obtain ⟨-, hwaits, hsame⟩ := act_of_waiting h d.activity
    obtain ⟨hend, hrest⟩ := ih hwaits
    rw [afterAll_cons]
    exact ⟨hend, hsame.trans hrest⟩

/-- **A machine that waits does not fault.** -/
theorem carryOut_of_waiting {e : Emulator π} (h : e.machine.obstacle? = some .waiting)
    (ds : List Deadline) : (e.carryOut ds).result.2 = none := by
  induction ds generalizing e with
  | nil => rfl
  | cons d ds ih =>
    obtain ⟨hresult, hwaits, -⟩ := act_of_waiting h d.activity
    rw [carryOut_cons ds hresult]
    exact ih hwaits

end Emulator

/-! ## 2. Slices -/

namespace Console

variable {π : Type} [Platform π] {c : Console π} {d : Duration}

/-- **A slice in which a machine waits** does not end in a fault.  The machine waits after `front`,
which may be empty, and until the end. -/
theorem advance_of_waiting {front rest : List Deadline} (hfired : c.fired d = front ++ rest)
    (hfront : (c.emulator.carryOut front).result.2 = none)
    (hwaits : (c.emulator.afterAll front).machine.obstacle? = some .waiting) :
    (Reply.passed (c.advance d).result).fault? = none ∧
      (c.advance d).state.emulator = (c.emulator.afterAll front).afterAll rest := by
  obtain ⟨-, -, hfaulted, heffect, -⟩ := c.traced d
  have hstate := (Emulator.carryOut_of_none hfront).2
  have hrest := Emulator.carryOut_of_waiting hwaits rest
  rw [hfired, Emulator.carryOut_append_of_none hfront, hstate] at hfaulted heffect
  cases hresult : (c.advance d).result with
  | faulted f => exact absurd (hrest.symm.trans ((hfaulted f).mp hresult)) (by simp)
  | ticked t | overflowed =>
    rw [hresult] at heffect
    exact ⟨rfl, heffect.trans (Emulator.carryOut_of_none hrest).2⟩

/-- Without a fault the scheduler goes on. -/
theorem isRunning_advance_of_unfaulted (h : (Reply.passed (c.advance d).result).fault? = none) :
    (c.advance d).state.scheduler.isRunning = c.scheduler.isRunning := by
  rw [isRunning_advance, h]
  exact Bool.and_true _

theorem isRunning_of_fired (h : c.fired d ≠ []) : c.scheduler.isRunning = true := by
  cases hp : c.scheduler.progress with
  | none => exact absurd (by simp only [fired, hp]) h
  | some p =>
    rw [Scheduler.isRunning, hp]
    rfl

/-- What a slice is like once a machine waits in it.  It waits from `e` on, and `waited` is what is
carried out in the meantime. -/
structure WaitedOut (c : Console π) (d : Duration) (e : Emulator π) (waited : List Deadline) :
    Prop where
  /-- Every cycle waits. -/
  blocked : ∀ front t rest, waited = front ++ ⟨t, .cycle⟩ :: rest →
    (e.afterAll front).tick.result = .error .waiting
  /-- The machine is suspended until the end of the slice. -/
  suspended : e.machine.Suspended (c.advance d).state.emulator.machine
  /-- The scheduler goes on, -/
  running : (c.advance d).state.scheduler.isRunning = true
  /-- the slice ends with a tick, -/
  ticked : c.scheduler.elapsed.nanos + d.nanos + 1000000000 ≤ Duration.longest.nanos →
    ∃ n, (c.advance d).result = .ticked n
  /-- and the cycles that waited are counted with all others. -/
  counted : ∀ n, (c.advance d).result = .ticked n → n = Tally.of (c.fired d)

theorem waitedOut {e : Emulator π} {front waited : List Deadline}
    (hfired : c.fired d = front ++ waited) (hne : waited ≠ [])
    (he : c.emulator.afterAll front = e) (hwaits : e.machine.obstacle? = some .waiting) :
    c.WaitedOut d e waited := by
  obtain ⟨first, rest, rfl⟩ := List.exists_cons_of_ne_nil hne
  have htraced := c.traced d
  have hfront := Emulator.carryOut_front_of_complete (hfired ▸ htraced.complete)
  obtain ⟨hno, hstate⟩ := advance_of_waiting hfired hfront (he ▸ hwaits)
  refine ⟨?_, ?_, ?_, ?_, htraced.tally⟩
  · intro before t after _
    exact Emulator.result_tick_of_obstacle (Emulator.afterAll_of_waiting hwaits before).1
  · rw [hstate, he]
    exact (Emulator.afterAll_of_waiting hwaits _).2
  · rw [isRunning_advance_of_unfaulted hno]
    exact isRunning_of_fired (by rw [hfired]; simp)
  · intro hmax
    have hrange := advance_ne_overflowed hmax
    cases hresult : (c.advance d).result with
    | ticked n => exact ⟨n, rfl⟩
    | faulted f =>
      rw [hresult] at hno
      cases hno
    | overflowed => exact absurd hresult hrange

/-! ## 3. Runs -/

/-- Whether a moment leaves the wait for a key as it is: time passes only while no key is down, the
scheduler is neither started nor stopped, and what else is done to the machine leaves it waiting. -/
def Moment.Polls (t : Moment π) : Prop :=
  match t.input with
  | .advance _ => t.state.emulator.machine.keys.AllUp
  | .perform op => Emulator.Moment.Polls ⟨t.state.emulator, op⟩
  | .start | .stop => False

variable {x : Register}

theorem waits_obey {cmd : Command} (h : decode c.emulator.machine.fetch = .ok (.waitKey x))
    (hpolls : Moment.Polls ⟨c, cmd⟩) :
    (c.obey cmd).result.fault? = none ∧
      (c.obey cmd).state.scheduler.isRunning = c.scheduler.isRunning ∧
      c.emulator.machine.Suspended (c.obey cmd).state.emulator.machine := by
  cases cmd with
  | start | stop => exact hpolls.elim
  | perform op => exact ⟨rfl, rfl, Emulator.suspended_perform h hpolls⟩
  | advance d =>
    have hwaits := Machine.obstacle_of_allUp h hpolls
    have hfired : c.fired d = [] ++ c.fired d := rfl
    obtain ⟨hno, hstate⟩ := advance_of_waiting hfired rfl hwaits
    refine ⟨hno, isRunning_advance_of_unfaulted hno, ?_⟩
    show c.emulator.machine.Suspended (c.advance d).state.emulator.machine
    rw [hstate]
    exact (Emulator.afterAll_of_waiting hwaits _).2

/-- **A machine waits over any run** in which no key is down when time passes. -/
theorem waits_obeyAll {cmds : List Command} (h : decode c.emulator.machine.fetch = .ok (.waitKey x))
    (hpolls : ∀ t ∈ c.history cmds, t.Polls) :
    (∀ r ∈ (c.obeyAll cmds).result, r.fault? = none) ∧
      (c.obeyAll cmds).state.scheduler.isRunning = c.scheduler.isRunning ∧
      c.emulator.machine.Suspended (c.obeyAll cmds).state.emulator.machine := by
  let P (after : Console π) : Prop :=
    after.scheduler.isRunning = c.scheduler.isRunning ∧
      c.emulator.machine.Suspended after.emulator.machine
  have hkeep : ∀ t ∈ c.history cmds, P t.state → P (t.state.obey t.input).state := by
    rintro t ht ⟨hrunning, hsame⟩
    obtain ⟨-, hstill, hlater⟩ := waits_obey (hsame.decode_fetch.trans h) (hpolls t ht)
    exact ⟨hstill.trans hrunning, hsame.trans hlater⟩
  obtain ⟨hmoments, hend⟩ := Step.moments_invariant (P := P) hkeep ⟨rfl, .refl _⟩
  refine ⟨fun r hr => ?_, hend⟩
  rw [obeyAll, Step.result_iterate] at hr
  obtain ⟨t, ht, rfl⟩ := List.mem_map.mp hr
  exact (waits_obey ((hmoments t ht).2.decode_fetch.trans h) (hpolls t ht)).1

/-! ## 4. Keys -/

/-- The key that a command presses or releases. -/
def Command.press? : Command → Option Press
  | .perform op => op.press?
  | .start | .stop | .advance _ => none

/-- What is pressed and released by a list of commands. -/
def presses (cmds : List Command) : List Press := cmds.filterMap Command.press?

/-- Time that passes presses no key. -/
theorem keys_advance (c : Console π) (d : Duration) :
    (c.advance d).state.emulator.machine.keys = c.emulator.machine.keys := by
  have hkeys : ∀ (e : Emulator π) ds, (e.afterAll ds).machine.keys = e.machine.keys := by
    intro e ds
    induction ds generalizing e with
    | nil => rfl
    | cons d ds ih =>
      obtain ⟨t, a⟩ := d
      rw [Emulator.afterAll_cons, ih]
      cases a with
      | timer => rfl
      | cycle => exact e.keys_tick
  have heffect := (c.traced d).effect
  rw [Emulator.state_carryOut] at heffect
  rw [heffect]
  cases (c.advance d).result with
  | ticked t | faulted f | overflowed => exact hkeys _ _

theorem keys_obey (c : Console π) (cmd : Command) :
    (c.obey cmd).state.emulator.machine.keys
      = c.emulator.machine.keys.setAll cmd.press?.toList := by
  cases cmd with
  | start | stop => rfl
  | advance d => exact c.keys_advance d
  | perform op => exact c.emulator.keys_perform op

/-- **Which keys are down after a list of commands**: those that it pressed and did not release after
that, and those that were down and that it left alone. -/
theorem isDown_obeyAll (c : Console π) (cmds : List Command) (key : UInt8) :
    (c.obeyAll cmds).state.emulator.machine.keys.isDown key
      = (Keypad.isKey key &&
          (Keypad.last? (presses cmds) key).getD (c.emulator.machine.keys.isDown key)) := by
  have hkeys : (c.obeyAll cmds).state.emulator.machine.keys
      = c.emulator.machine.keys.setAll (presses cmds) :=
    Keypad.setAll_iterate (k := fun c : Console π => c.emulator.machine.keys) keys_obey c cmds
  rw [hkeys, Keypad.isDown_setAll]

end Console

/-! ## 5. What waiting means -/

namespace Emulator

variable {π : Type} [Platform π]

/-- What it means that an emulator waits for a key to store in VX. -/
structure AwaitsKey (e : Emulator π) (x : Register) : Prop where
  /-- As long as no tick finds a key down, every tick waits and the machine is suspended, -/
  blocked : ∀ ops, (∀ t ∈ e.history ops, t.Polls) →
    (∀ r, .ticked r ∈ (e.performAll ops).result → r = .error .waiting) ∧
      e.machine.Suspended (e.performAll ops).state.machine
  /-- and the first tick that finds one takes the lowest. -/
  taken : ∀ ops, (∀ t ∈ e.history ops, t.Polls) →
    let before := (e.performAll ops).state
    ¬ before.machine.keys.AllUp →
      before.tick.result = .ok () ∧ before.machine.TookKey x before.tick.state.machine
  /-- The keys down are those that were pressed last, of all that a run presses and releases, and
  those that it left alone, -/
  keys : ∀ ops key, (e.performAll ops).state.machine.keys.isDown key
    = (Keypad.isKey key && (Keypad.last? (presses ops) key).getD (e.machine.keys.isDown key))
  /-- and time that passes in between makes no difference to them. -/
  held : ∀ (c : Console π) cmds key, c.emulator = e →
    (c.obeyAll cmds).state.emulator.machine.keys.isDown key
      = (Keypad.isKey key &&
          (Keypad.last? (Console.presses cmds) key).getD (e.machine.keys.isDown key))
  /-- A number that names no key presses none, in this state and in any other. -/
  ignored : ∀ (other : Emulator π) key down, Keypad.isKey key = false →
    (other.setKey key down).state = other
  /-- The wait may begin anywhere in a slice: it lasts until the end of the slice. -/
  slices : e.machine.keys.AllUp → ∀ (c : Console π) d front waited,
    c.fired d = front ++ waited → waited ≠ [] → c.emulator.afterAll front = e →
    c.WaitedOut d e waited
  /-- Over any number of slices, and whatever is done to the keys between them, the scheduler is not
  stopped as long as no slice finds a key down. -/
  runs : ∀ (c : Console π) cmds, c.emulator = e → (∀ t ∈ c.history cmds, t.Polls) →
    (∀ r ∈ (c.obeyAll cmds).result, r.fault? = none) ∧
      (c.obeyAll cmds).state.scheduler.isRunning = c.scheduler.isRunning ∧
      e.machine.Suspended (c.obeyAll cmds).state.emulator.machine

/-- **Waiting for a key**, on any platform and in any state in which the word at the program counter
is `FX0A`. -/
theorem awaitsKey (e : Emulator π) (hfamily : Word.family e.machine.fetch = 0xF)
    (hnn : (Word.nn e.machine.fetch).toNat = 0x0A) : e.AwaitsKey (Word.x e.machine.fetch) := by
  have hdecode : decode e.machine.fetch = .ok (.waitKey (Word.x e.machine.fetch)) :=
    decode_eq_waitKey_iff.mpr ⟨hfamily, hnn, rfl⟩
  refine ⟨fun ops => waits_performAll hdecode, fun ops => tookKey_performAll hdecode,
    e.isDown_performAll, ?_, ?_, ?_, ?_⟩
  · rintro c cmds key rfl
    exact c.isDown_obeyAll cmds key
  · intro other key down hkey
    exact Emulator.ext (congrArg (fun k => { other.machine with keys := k })
      (other.machine.keys.set_of_not_isKey hkey down)) rfl
  · intro hup c d front waited hfired hne he
    exact Console.waitedOut hfired hne he (Machine.obstacle_of_allUp hdecode hup)
  · rintro c cmds rfl
    exact Console.waits_obeyAll hdecode

/-- The second instruction of a program waits for a key to store in V3. -/
theorem awaitsKey_second_instruction :
    let e := ((scripted []).performAll [.load [0x63, 0xFF, 0xF3, 0x0A], .tick]).state
    Word.family e.machine.fetch = 0xF ∧ (Word.nn e.machine.fetch).toNat = 0x0A ∧
      e.machine.keys.AllUp ∧ e.AwaitsKey 3 := by
  intro e
  obtain ⟨hfamily, hnn, hx, hkeys⟩ : Word.family e.machine.fetch = 0xF ∧
      (Word.nn e.machine.fetch).toNat = 0x0A ∧ Word.x e.machine.fetch = 3 ∧
      e.machine.keys.lowest? = none := by decide +kernel
  exact ⟨hfamily, hnn, Keypad.lowest?_eq_none_iff.mp hkeys, hx ▸ awaitsKey e hfamily hnn⟩

end Emulator

end Chip8
