/-
# Changes that an instruction does not notice

The dialect, the timers and the keys of a machine are looked at by a handful of instructions.  An
`Adjustment` changes these parts and no other, and `Adjustment.Unnoticed` says, instruction by
instruction, what it has to leave alone for the instruction to do the same.

* `execute_adjust`: an instruction that does not notice an adjustment does the same with it as
  without it, and the adjustment stays.
* `machine_tick_adjust` and its neighbours are that for a tick.  What the platform is told of the
  tone may differ; if it does not, then nothing does (`tick_adjust`).
-/
import Chip8.Proofs.Machine.Timers

namespace Chip8

/-! ## 1. Adjustments -/

/-- A change to the parts of a machine that few instructions look at. -/
structure Adjustment where
  dialect : Dialect → Dialect := id
  delay : Countdown → Countdown := id
  sound : Countdown → Countdown := id
  keys : Keypad → Keypad := id

namespace Adjustment

/-- The adjusted machine. -/
def adjust (a : Adjustment) (m : Machine) : Machine :=
  { m with
    dialect := a.dialect m.dialect
    delay := a.delay m.delay
    sound := a.sound m.sound
    keys := a.keys m.keys }

/-- Whether an instruction cannot tell a machine from the adjusted one. -/
def Unnoticed (a : Adjustment) (m : Machine) : Instruction → Prop
  | .combine op x y =>
    op.eval (a.dialect m.dialect) (m.v.get x) (m.v.get y)
      = op.eval m.dialect (m.v.get x) (m.v.get y)
  | .skipDown x | .skipUp x => (a.keys m.keys).isDown (m.v.get x) = m.keys.isDown (m.v.get x)
  | .waitKey _ => (a.keys m.keys).lowest? = m.keys.lowest?
  | .readDelay _ => a.delay m.delay = m.delay
  | .setDelay x => a.delay ⟨m.v.get x⟩ = ⟨m.v.get x⟩
  | .setSound x => a.sound ⟨m.v.get x⟩ = ⟨m.v.get x⟩
  | .storeRegisters _ | .loadRegisters _ =>
    (a.dialect m.dialect).transferMovesIndex = m.dialect.transferMovesIndex
  | _ => True

/-- Whether the instruction at the program counter cannot tell. -/
def UnnoticedNext (a : Adjustment) (m : Machine) : Prop :=
  ∀ i, decode m.fetch = .ok i → a.Unnoticed m i

/-! ## 2. What an adjusted machine does -/

section Execution

variable {a : Adjustment} {m : Machine}

theorem adjust_skipIf (a : Adjustment) (m : Machine) (skip : Bool) :
    (a.adjust m).skipIf skip = a.adjust (m.skipIf skip) := by
  cases skip <;> rfl

theorem adjust_report (a : Adjustment) (m : Machine) (flag : Option UInt8) :
    (a.adjust m).report flag = a.adjust (m.report flag) := by
  cases flag <;> rfl

/-- A transfer that does not notice an adjustment moves the index alike. -/
theorem movedIndex_adjust
    (h : (a.dialect m.dialect).transferMovesIndex = m.dialect.transferMovesIndex) (n : Nat) :
    (a.adjust m).movedIndex n = m.movedIndex n := by
  have hmoves : (a.adjust m).dialect.transferMovesIndex = m.dialect.transferMovesIndex := h
  rw [Machine.movedIndex, hmoves]
  rfl

/-- **An instruction that does not notice an adjustment** does the same, and the adjustment
stays. -/
theorem execute_adjust (byte : UInt8) {i : Instruction} (h : a.Unnoticed m i) :
    (a.adjust m).execute byte i = (m.execute byte i).map a.adjust := by
  cases i with
  | ret =>
    have hstack : (a.adjust m).stack = m.stack := rfl
    simp only [Machine.execute, Machine.pop, hstack]
    cases m.stack.head? <;> rfl
  | call target =>
    have hstack : (a.adjust m).stack = m.stack := rfl
    by_cases hroom : m.stack.length < Machine.stackLimit
    · simp only [Machine.execute, Machine.push, hstack, if_pos hroom]
      rfl
    · simp only [Machine.execute, Machine.push, hstack, if_neg hroom]
      rfl
  | waitKey x =>
    have hkeys : (a.adjust m).keys.lowest? = m.keys.lowest? := h
    simp only [Machine.execute, hkeys]
    cases m.keys.lowest? <;> rfl
  | skipDown x =>
    have hdown : (a.adjust m).keys.isDown (m.v.get x) = m.keys.isDown (m.v.get x) := h
    show Outcome.done ((a.adjust m).skipIf ((a.adjust m).keys.isDown (m.v.get x))) = _
    rw [hdown, adjust_skipIf]
    rfl
  | skipUp x =>
    have hdown : (a.adjust m).keys.isDown (m.v.get x) = m.keys.isDown (m.v.get x) := h
    show Outcome.done ((a.adjust m).skipIf !((a.adjust m).keys.isDown (m.v.get x))) = _
    rw [hdown, adjust_skipIf]
    rfl
  | skipEqual x b => exact congrArg Outcome.done (adjust_skipIf ..)
  | skipUnequal x b => exact congrArg Outcome.done (adjust_skipIf ..)
  | skipSame x y => exact congrArg Outcome.done (adjust_skipIf ..)
  | skipDifferent x y => exact congrArg Outcome.done (adjust_skipIf ..)
  | combine op x y =>
    have heval : op.eval (a.adjust m).dialect ((a.adjust m).v.get x) ((a.adjust m).v.get y)
        = op.eval m.dialect (m.v.get x) (m.v.get y) := h
    simp only [Machine.execute, heval, adjust_report]
    rfl
  | readDelay x =>
    have hdelay : (a.adjust m).delay = m.delay := h
    simp only [Machine.execute, hdelay]
    rfl
  | setDelay x =>
    have hdelay : a.delay ⟨m.v.get x⟩ = ⟨m.v.get x⟩ := h
    simp only [Machine.execute, Outcome.map, adjust, Machine.next, hdelay]
  | setSound x =>
    have hsound : a.sound ⟨m.v.get x⟩ = ⟨m.v.get x⟩ := h
    simp only [Machine.execute, Outcome.map, adjust, Machine.next, hsound]
  | storeRegisters x =>
    simp only [Machine.execute, movedIndex_adjust h]
    rfl
  | loadRegisters x =>
    simp only [Machine.execute, movedIndex_adjust h]
    rfl
  | _ => rfl

theorem step_adjust (byte : UInt8) (h : a.UnnoticedNext m) :
    (a.adjust m).step byte = (m.step byte).map a.adjust := by
  have hfetch : (a.adjust m).fetch = m.fetch := rfl
  simp only [Machine.step, hfetch]
  cases hdecode : decode m.fetch with
  | error e => rfl
  | ok i => exact execute_adjust byte (h i hdecode)

end Execution

section Tick

variable {π : Type} [Platform π] {a : Adjustment} {e : Emulator π}
  (h : a.UnnoticedNext e.machine)

include h

/-- **A tick that does not notice an adjustment** has the same result, -/
theorem result_tick_adjust : (e.mapMachine a.adjust).tick.result = e.tick.result := by
  show ((a.adjust e.machine).step e.supply.1).result = (e.machine.step e.supply.1).result
  rw [step_adjust _ h, Outcome.result_map]

/-- leaves the same machine, adjusted, -/
theorem machine_tick_adjust :
    (e.mapMachine a.adjust).tick.state.machine = a.adjust e.tick.state.machine := by
  show ((a.adjust e.machine).step e.supply.1).machine = a.adjust (e.machine.step e.supply.1).machine
  rw [step_adjust _ h, Outcome.machine_map]

/-- and makes the same calls, up to the tone. -/
theorem calls_tick_adjust :
    Event.calls (e.mapMachine a.adjust).tick.events
      = (if e.machine.needsRandom then [.random] else [])
        ++ [.tone (a.adjust e.tick.state.machine).sound.isActive] := by
  rw [Emulator.calls_tick, machine_tick_adjust h]
  rfl

/-- If the tone is the same too, then everything is. -/
theorem tick_adjust (hactive : (a.adjust e.tick.state.machine).sound.isActive
      = e.tick.state.machine.sound.isActive) :
    (e.mapMachine a.adjust).tick = e.tick.map (Emulator.mapMachine a.adjust) := by
  have hstep := step_adjust e.supply.1 h
  refine Emulator.tick_congr (f := id) rfl rfl rfl ?_ ?_
  · rw [Outcome.map_id]
    exact hstep
  · show ((a.adjust e.machine).step e.supply.1).machine.sound.isActive = _
    rw [hstep, Outcome.machine_map]
    exact hactive

end Tick

end Adjustment

end Chip8
