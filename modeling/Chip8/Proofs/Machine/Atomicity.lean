/-
# Ticks that do not succeed

A tick that waits for a key or faults leaves the machine as it was, draws no random byte, and tells
the platform of the tone like any other tick.

A fault is for good.  It depends on the memory, the program counter and the call stack; a tick that
faults changes none of them, and neither do the timers, the keys and the screen being taken.  So the
same fault is met again on every tick until a program is loaded or the machine is reset.
-/
import Chip8.Proofs.Machine.Control

namespace Chip8

namespace Emulator

variable {π : Type} [Platform π]

/-- Whether an operation leaves the program and the control of the run alone. -/
def Operation.keepsProgram : Operation → Bool
  | .load _ | .reset => false
  | .tick | .countDown | .setKey _ _ | .takeScreen => true

/-- **What the next tick faults on stays the same.** -/
theorem obstacle_perform {e : Emulator π} {f : Fault} {op : Operation}
    (h : e.machine.obstacle? = some (.fault f)) (hop : op.keepsProgram) :
    (e.perform op).state.machine.obstacle? = some (.fault f) := by
  cases op with
  | tick =>
    show e.tick.state.machine.obstacle? = some (.fault f)
    rw [state_tick_of_obstacle h]
    exact h
  | countDown | setKey key down | takeScreen =>
    exact Machine.obstacle_congr (m := e.machine) rfl rfl rfl h
  | load program | reset => cases hop

/-- What it means that a tick that stopped with `s` had no effect. -/
structure Rebuffed (e : Emulator π) (s : Stop) : Prop where
  /-- The machine is as it was. -/
  machine : e.tick.state.machine = e.machine
  /-- The platform was told of the tone. -/
  platform : e.tick.state.platform = (Platform.tell e.platform e.machine.sound.isActive).1
  /-- There was no other call. -/
  calls : Event.calls e.tick.events = [.tone e.machine.sound.isActive]
  /-- If it was a fault, then all further ticks come to the same fault. -/
  lasting : ∀ f, s = .fault f → ∀ ops : List Operation, (∀ op ∈ ops, op.keepsProgram) →
    ∀ r, .ticked r ∈ (e.tick.state.performAll ops).result → r = .error (.fault f)

/-- **A tick that does not succeed has no effect, and a fault is for good.** -/
theorem rebuffed_of_result_tick {e : Emulator π} {s : Stop} (h : e.tick.result = .error s) :
    e.Rebuffed s := by
  have hobstacle : e.machine.obstacle? = some s := Machine.obstacle_of_result h
  have hstate := state_tick_of_obstacle hobstacle
  refine ⟨by rw [hstate], by rw [hstate], calls_tick_of_obstacle hobstacle, ?_⟩
  rintro f rfl ops hops
  let P (e : Emulator π) : Prop := e.machine.obstacle? = some (.fault f)
  have hkeep : ∀ e op, op ∈ ops → P e → P (e.perform op).state := by
    intro e op hop he
    exact obstacle_perform he (hops op hop)
  have hstart : P (e.perform .tick).state := obstacle_perform hobstacle rfl
  exact ticked_of_performAll hkeep (fun e he => result_tick_of_obstacle he) hstart

/-- A subroutine that calls itself: after sixteen calls there is no room for another. -/
theorem rebuffed_of_result_tick_recursion :
    let e := ((scripted []).performAll (.load [0x22, 0x00] :: List.replicate 16 .tick)).state
    e.tick.result = .error (.fault (.stackFull 0x200)) ∧
      e.Rebuffed (.fault (.stackFull 0x200)) :=
  have hfull : Machine.obstacle? _ = some (Stop.fault (.stackFull 0x200)) := by decide +kernel
  ⟨result_tick_of_obstacle hfull, rebuffed_of_result_tick (result_tick_of_obstacle hfull)⟩

end Emulator

end Chip8
