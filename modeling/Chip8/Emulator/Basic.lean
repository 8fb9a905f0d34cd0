/-
# Emulators

A machine on a platform, and the operations of a host on the pair, each with its events.

`tick` runs one instruction.  It draws a random byte only if the instruction needs one, and it
ends, whether the instruction took effect or not, by telling the platform whether the tone should
sound.
-/
import Chip8.Machine.Execution
import Chip8.Platform

namespace Chip8

/-- A machine on a platform. -/
@[ext]
structure Emulator (π : Type) where
  machine : Machine
  platform : π

/-! ## 1. What a tick does, part by part -/

/-- The notices of the machine before an instruction: what it is and which of its writes are
dropped. -/
def Machine.announced (m : Machine) : List Notice :=
  match m.instruction? with
  | some i => .executing m.pc m.fetch i :: (m.dropped i).map .writeDropped
  | none => []

/-- The notices of an outcome: a fault is reported, waiting is not. -/
def Outcome.notices : Outcome → List Notice
  | .stopped (.fault f) _ => [.faulted f]
  | _ => []

/-- Whether the result of an instruction is a fault, and which. -/
def Stop.fault? : Except Stop Unit → Option Fault
  | .error (.fault f) => some f
  | _ => none

theorem Stop.fault?_eq_some_iff {r : Except Stop Unit} {f : Fault} :
    fault? r = some f ↔ r = .error (.fault f) := by
  cases r with
  | ok u => simp [fault?]
  | error s => cases s <;> simp [fault?]

namespace Emulator

variable {π : Type}

/-- The byte for the next instruction and the platform after drawing it; no byte is drawn for an
instruction that needs none. -/
def supply [Platform π] (e : Emulator π) : UInt8 × π :=
  if e.machine.needsRandom then Platform.draw e.platform else (0, e.platform)

/-- Runs one instruction. -/
def tick [Platform π] (e : Emulator π) : Step (Emulator π) (Except Stop Unit) :=
  let supplied := e.supply
  let outcome := e.machine.step supplied.1
  let sounding := outcome.machine.sound.isActive
  let told := Platform.tell supplied.2 sounding
  { result := outcome.result
    state := ⟨outcome.machine, told.1⟩
    events :=
      e.machine.announced.map .notice
        ++ (if e.machine.needsRandom then [.call .random] else [])
        ++ outcome.notices.map .notice
        ++ .call (.tone sounding) :: told.2.map .notice }

/-! ## 2. The other operations -/

/-- Counts both timers down by one. -/
def countDown (e : Emulator π) : Step (Emulator π) Unit :=
  .quiet { e with machine := e.machine.countDown }
    (if e.machine.sound.isLast then [.soundExpired] else [])

/-- Presses or releases a key. -/
def setKey (e : Emulator π) (key : UInt8) (down : Bool) : Step (Emulator π) Unit :=
  .quiet { e with machine := e.machine.setKey key down }
    (if Keypad.isKey key then [.keyChanged key down] else [.keyIgnored key])

/-- The notices of loading a program of so many bytes. -/
def loadNotices (bytes : Nat) : List Notice :=
  (if Machine.programSpace < bytes then [.programTruncated bytes Machine.programSpace] else [])
    ++ [.programLoaded (min bytes Machine.programSpace)]

/-- Loads a program. -/
def load (e : Emulator π) (program : List UInt8) : Step (Emulator π) Unit :=
  .quiet { e with machine := e.machine.load program } (loadNotices program.length)

/-- Resets the machine; the platform is not told. -/
def reset (e : Emulator π) : Step (Emulator π) Unit :=
  .quiet { e with machine := e.machine.reset } []

/-- Takes the screen, if it was drawn on since it was last taken. -/
def takeScreen (e : Emulator π) : Step (Emulator π) (Option Screen) :=
  let taken := e.machine.takeScreen
  ⟨taken.1, { e with machine := taken.2 }, []⟩

/-- Tells the platform directly whether the tone should sound. -/
def tell [Platform π] (e : Emulator π) (on : Bool) : Step (Emulator π) Unit :=
  let told := Platform.tell e.platform on
  ⟨(), { e with platform := told.1 }, .call (.tone on) :: told.2.map .notice⟩

/-! ## 3. Operations as data -/

/-- An operation of a host. -/
inductive Operation
  | tick
  | countDown
  | setKey (key : UInt8) (down : Bool)
  | load (program : List UInt8)
  | reset
  | takeScreen
deriving DecidableEq

/-- What an operation answers. -/
inductive Answer
  | done
  | ticked (result : Except Stop Unit)
  | taken (screen : Option Screen)

/-- Performs an operation. -/
def perform [Platform π] (e : Emulator π) : Operation → Step (Emulator π) Answer
  | .tick => let s := e.tick; ⟨.ticked s.result, s.state, s.events⟩
  | .countDown => let s := e.countDown; ⟨.done, s.state, s.events⟩
  | .setKey key down => let s := e.setKey key down; ⟨.done, s.state, s.events⟩
  | .load program => let s := e.load program; ⟨.done, s.state, s.events⟩
  | .reset => let s := e.reset; ⟨.done, s.state, s.events⟩
  | .takeScreen => let s := e.takeScreen; ⟨.taken s.result, s.state, s.events⟩

end Emulator

end Chip8
