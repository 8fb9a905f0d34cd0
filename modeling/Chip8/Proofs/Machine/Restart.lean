/-
# Starting over

A reset makes a machine what it is when it is switched on.  Three things outlive it: the keys, which
mirror those of a keyboard, the dialect, and the platform, which is not told.  So what a machine did
before its reset shows in nothing but the keys and what became of the platform.

* `Machine.SwitchedOn` says part by part what a machine is when it is switched on, and
  `Machine.eq_reset_iff` that this, the dialect and the keys leave nothing of it open; so a reset
  gives the machine just switched on, apart from the keys (`Machine.reset_eq_powerOn`).
* Only presses and releases change the keys (`keys_performAll`), nothing changes the dialect
  (`dialect_performAll`), and keys can be set to anything (`Keypad.setAll_presses`).
* `startsOver`: after a reset and with a program loaded, a machine goes on as one that was set up
  with that program and on which the keys were pressed.
-/
import Chip8.Proofs.Machine.Keys
import Chip8.Proofs.Screen.Cells

namespace Chip8

/-! ## 1. A machine that was just switched on -/

namespace Machine

/-- What a machine is when it is switched on, part by part. -/
structure SwitchedOn (m : Machine) : Prop where
  v : ∀ x, m.v.get x = 0
  index : m.index = 0
  pc : m.pc = 0x200
  /-- The sprites of the digits, and zeros before and after them. -/
  memory : ∀ a, m.memory.read a = if 0x050 ≤ a ∧ a < 0x0A0 then glyphs[a - 0x050]?.getD 0 else 0
  stack : m.stack = []
  screen : ∀ c < 2048, m.screen.cell? c = some false
  redraw : m.redraw = false
  delay : m.delay.left = 0
  sound : m.sound.left = 0

theorem switchedOn_reset (m : Machine) : m.reset.SwitchedOn where
  v := Registers.get_zero
  index := rfl
  pc := rfl
  memory a := by
    have hmemory : m.reset.memory = Memory.blank.store glyphStart glyphs := rfl
    have hlength : glyphs.length = 80 := rfl
    rw [hmemory, Memory.read_store, Memory.read_blank, hlength]
    refine if_congr ?_ rfl rfl
    rw [glyphStart, Memory.size]
    omega
  stack := rfl
  screen _ := Screen.cell?_blank
  redraw := rfl
  delay := rfl
  sound := rfl

theorem switchedOn_powerOn (d : Dialect) : (powerOn d).SwitchedOn := (empty d).switchedOn_reset

/-- The keys are no part of it. -/
theorem SwitchedOn.with_keys {m : Machine} (h : m.SwitchedOn) (keys : Keypad) :
    { m with keys }.SwitchedOn :=
  ⟨h.v, h.index, h.pc, h.memory, h.stack, h.screen, h.redraw, h.delay, h.sound⟩

/-- **There is one such machine** for every dialect and all keys. -/
theorem SwitchedOn.unique {m m' : Machine} (h : m.SwitchedOn) (h' : m'.SwitchedOn)
    (hdialect : m.dialect = m'.dialect) (hkeys : m.keys = m'.keys) : m = m' := by
  have hscreen : m.screen = m'.screen := by
    refine Screen.ext_cell? fun c => ?_
    rcases Nat.lt_or_ge c 2048 with hc | hc
    · rw [h.screen c hc, h'.screen c hc]
    · rw [Screen.cell?_eq_none_iff.mpr hc, Screen.cell?_eq_none_iff.mpr hc]
  apply Machine.ext
  case dialect => exact hdialect
  case v => exact Registers.ext_get fun x => (h.v x).trans (h'.v x).symm
  case index => exact h.index.trans h'.index.symm
  case pc => exact h.pc.trans h'.pc.symm
  case memory => exact Memory.ext_read fun a _ => (h.memory a).trans (h'.memory a).symm
  case stack => exact h.stack.trans h'.stack.symm
  case screen => exact hscreen
  case redraw => exact h.redraw.trans h'.redraw.symm
  case delay => exact Countdown.ext (h.delay.trans h'.delay.symm)
  case sound => exact Countdown.ext (h.sound.trans h'.sound.symm)
  case keys => exact hkeys

theorem eq_reset_iff {m m' : Machine} :
    m' = m.reset ↔ m'.SwitchedOn ∧ m'.dialect = m.dialect ∧ m'.keys = m.keys := by
  constructor
  · rintro rfl
    exact ⟨m.switchedOn_reset, rfl, rfl⟩
  · rintro ⟨hon, hdialect, hkeys⟩
    exact hon.unique m.switchedOn_reset hdialect hkeys

/-- **A reset machine is one just switched on**, apart from the keys. -/
theorem reset_eq_powerOn (m : Machine) : m.reset = { powerOn m.dialect with keys := m.keys } :=
  (eq_reset_iff.mpr ⟨(switchedOn_powerOn m.dialect).with_keys m.keys, rfl, rfl⟩).symm

/-- A second reset changes nothing. -/
theorem reset_reset (m : Machine) : m.reset.reset = m.reset :=
  (eq_reset_iff.mpr ⟨m.switchedOn_reset, rfl, rfl⟩).symm

end Machine

/-! ## 2. What a run leaves of the dialect, and what presses do -/

namespace Emulator

/-- The operation that presses or releases a key. -/
def Operation.ofPress (p : Press) : Operation := .setKey p.key p.down

variable {π : Type} [Platform π]

theorem dialect_tick (e : Emulator π) : e.tick.state.machine.dialect = e.machine.dialect := by
  obtain ⟨-, hsame⟩ | ⟨i, -, hexecute⟩ := e.machine_tick_cases
  · rw [hsame]
  · rw [hexecute, Machine.dialect_execute]

theorem dialect_perform (e : Emulator π) (op : Operation) :
    (e.perform op).state.machine.dialect = e.machine.dialect := by
  cases op with
  | tick => exact e.dialect_tick
  | countDown | setKey key down | load program | reset | takeScreen => rfl

/-- **The dialect stays.** -/
theorem dialect_performAll (e : Emulator π) (ops : List Operation) :
    (e.performAll ops).state.machine.dialect = e.machine.dialect :=
  Step.iterate_invariant (P := fun after : Emulator π => after.machine.dialect = e.machine.dialect)
    (fun after op _ h => (after.dialect_perform op).trans h) rfl

/-- Pressing and releasing keys does nothing else. -/
theorem state_performAll_ofPress (e : Emulator π) (ps : List Press) :
    (e.performAll (ps.map .ofPress)).state
      = { e with machine := { e.machine with keys := e.machine.keys.setAll ps } } := by
  induction ps generalizing e with
  | nil => rfl
  | cons p ps ih => exact ih (e.setKey p.key p.down).state

end Emulator

/-! ## 3. Starting over -/

namespace Emulator

variable {π : Type}

/-- What a new emulator is built from that is to run a program in the place of this one. -/
def setupAnew (e : Emulator π) (program : List UInt8) : Setup π :=
  ((({} : Setup π).withPlatform e.platform).withDialect e.machine.dialect).withProgram program

variable [Platform π]

/-- What it means that a machine starts over when it is reset: `before` is any machine on any
platform, and `after` what a run of operations made of it. -/
structure StartsOver (before : Emulator π) (ops : List Operation) (after : Emulator π) : Prop where
  /-- The machine is as if just switched on, apart from the keys; nothing happens besides, and the
  platform is as it was. -/
  reset : after.perform .reset
    = ⟨.done,
        ⟨{ Machine.powerOn after.machine.dialect with keys := after.machine.keys }, after.platform⟩,
        []⟩
  /-- It is the one machine that is switched on with this dialect and these keys. -/
  eq_iff : ∀ m, m = (after.perform .reset).state.machine ↔
    m.SwitchedOn ∧ m.dialect = after.machine.dialect ∧ m.keys = after.machine.keys
  /-- Its dialect is the one it had all along, -/
  dialect : after.machine.dialect = before.machine.dialect
  /-- and its keys are as they were pressed and released. -/
  keys : after.machine.keys = before.machine.keys.setAll (presses ops)
  again : (after.perform .reset).state.perform .reset = after.perform .reset
  /-- A new emulator can be built, whatever the program, and that does not call the platform. -/
  built : ∀ program, ∃ made, (after.setupAnew program).build = .ok made ∧
    Event.calls made.events = []
  /-- The keys that are down can be pressed on it. -/
  pressed : ∃ ps, Keypad.released.setAll ps = after.machine.keys
  /-- Once they are, it cannot be told from the machine that is reset and given the program,
  whatever is done next. -/
  alike : ∀ program made, (after.setupAnew program).build = .ok made →
    ∀ ps, Keypad.released.setAll ps = after.machine.keys → ∀ next,
      (after.performAll [.reset, .load program]).state.performAll next
        = (made.state.performAll (ps.map .ofPress)).state.performAll next

/-- The new emulator with the keys pressed is the machine that was reset and given the program. -/
theorem state_performAll_reset_load (e : Emulator π) {program : List UInt8}
    {made : Step (Emulator π) Unit} (hmade : (e.setupAnew program).build = .ok made)
    {ps : List Press} (hps : Keypad.released.setAll ps = e.machine.keys) :
    (e.performAll [.reset, .load program]).state
      = (made.state.performAll (ps.map .ofPress)).state := by
  obtain rfl := Except.ok.inj hmade
  have hkeys : (Machine.powerOn e.machine.dialect).keys.setAll ps = e.machine.keys := hps
  rw [state_performAll_ofPress]
  refine Emulator.ext ?_ rfl
  show _ = { (Machine.powerOn e.machine.dialect).load program with
    keys := (Machine.powerOn e.machine.dialect).keys.setAll ps }
  rw [hkeys]
  rfl

/-- **A machine that is reset starts over**, after every run. -/
theorem startsOver (before : Emulator π) (ops : List Operation) :
    StartsOver before ops (before.performAll ops).state where
  reset := by
    rw [← Machine.reset_eq_powerOn]
    rfl
  eq_iff _ := Machine.eq_reset_iff
  dialect := before.dialect_performAll ops
  keys := before.keys_performAll ops
  again := by
    let after := (before.performAll ops).state
    have hmachine : after.machine.reset.reset = after.machine.reset := after.machine.reset_reset
    show (⟨.done, ⟨after.machine.reset.reset, after.platform⟩, []⟩ : Step (Emulator π) Answer) = _
    rw [hmachine]
    rfl
  built _ := ⟨_, rfl, Event.calls_notices _⟩
  pressed := ⟨_, Keypad.setAll_presses .released _⟩
  alike program made hmade ps hps next := by
    rw [state_performAll_reset_load _ hmade hps]

end Emulator

end Chip8
