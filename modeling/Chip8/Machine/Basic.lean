/-
# The machine

The state of a machine, apart from the platform it runs on, and what a host does to it between
instructions: switch it on, reset it, load a program, press keys, count its timers down and take
its picture.

* Instructions start at address `0x200`; the sprites of the sixteen digits, five rows each,
  stand from address `0x050` on.
* `reset` clears a machine, except that the keys stay as they are; a machine is switched on by a
  reset.
* `takeScreen` hands out the screen at most once after each instruction that drew on it.
-/
import Chip8.Countdown
import Chip8.Dialect
import Chip8.Keypad
import Chip8.Memory
import Chip8.Registers
import Chip8.Screen.Basic

namespace Chip8

/-! ## 1. The state -/

/-- A machine. -/
@[ext]
structure Machine where
  dialect : Dialect
  /-- The registers V0 to VF. -/
  v : Registers
  /-- The index register I. -/
  index : UInt16
  /-- The program counter. -/
  pc : UInt16
  memory : Memory
  /-- The addresses of the calls under way, the latest first. -/
  stack : List UInt16
  screen : Screen
  /-- Whether the screen was drawn on since it was last taken. -/
  redraw : Bool
  delay : Countdown
  sound : Countdown
  keys : Keypad
deriving DecidableEq

namespace Machine

/-- Where programs start. -/
abbrev programStart : Nat := 0x200

/-- The bytes from there to the end of memory. -/
abbrev programSpace : Nat := 3584

/-- Where the sprites of the digits start. -/
abbrev glyphStart : Nat := 0x050

/-- The calls that can be under way at once. -/
abbrev stackLimit : Nat := 16

/-- The sprites of the digits `0` to `F`, five rows each. -/
def glyphs : List UInt8 :=
  [0xF0, 0x90, 0x90, 0x90, 0xF0,
   0x20, 0x60, 0x20, 0x20, 0x70,
   0xF0, 0x10, 0xF0, 0x80, 0xF0,
   0xF0, 0x10, 0xF0, 0x10, 0xF0,
   0x90, 0x90, 0xF0, 0x10, 0x10,
   0xF0, 0x80, 0xF0, 0x10, 0xF0,
   0xF0, 0x80, 0xF0, 0x90, 0xF0,
   0xF0, 0x10, 0x20, 0x40, 0x40,
   0xF0, 0x90, 0xF0, 0x90, 0xF0,
   0xF0, 0x90, 0xF0, 0x10, 0xF0,
   0xF0, 0x90, 0xF0, 0x90, 0x90,
   0xE0, 0x90, 0xE0, 0x90, 0xE0,
   0xF0, 0x80, 0x80, 0x80, 0xF0,
   0xE0, 0x90, 0x90, 0x90, 0xE0,
   0xF0, 0x80, 0xF0, 0x80, 0xF0,
   0xF0, 0x80, 0xF0, 0x80, 0x80]

/-- The first row of a digit's sprite. -/
def glyphAddress (digit : Nat) : Nat := glyphStart + 5 * digit

/-- A machine with nothing in it. -/
def empty (dialect : Dialect) : Machine where
  dialect
  v := .zero
  index := 0
  pc := 0x200
  memory := .blank
  stack := []
  screen := .blank
  redraw := false
  delay := .stopped
  sound := .stopped
  keys := .released

/-! ## 2. What a host does -/

/-- Clears everything but the dialect and the keys, and puts the digits' sprites into memory. -/
def reset (m : Machine) : Machine :=
  { m with
    memory := Memory.blank.store glyphStart glyphs
    v := .zero
    index := 0
    pc := 0x200
    stack := []
    screen := .blank
    redraw := false
    delay := .stopped
    sound := .stopped }

/-- A machine just switched on: it was reset once. -/
def powerOn (dialect : Dialect) : Machine := (empty dialect).reset

/-- Writes a program to memory; the bytes that do not fit are dropped. -/
def load (m : Machine) (program : List UInt8) : Machine :=
  { m with memory := m.memory.store programStart program }

/-- Presses or releases a key. -/
def setKey (m : Machine) (key : UInt8) (down : Bool) : Machine :=
  { m with keys := m.keys.set key down }

/-- Counts both timers down by one. -/
def countDown (m : Machine) : Machine := { m with delay := m.delay.tick, sound := m.sound.tick }

/-- The screen, if it was drawn on since it was last taken. -/
def takeScreen (m : Machine) : Option Screen × Machine :=
  (if m.redraw then some m.screen else none, { m with redraw := false })

/-! ## 3. The next instruction -/

/-- The word at the program counter, high byte first. -/
def fetch (m : Machine) : UInt16 :=
  (m.memory.read m.pc.toNat).toUInt16 * 256 + (m.memory.read (m.pc.toNat + 1)).toUInt16

end Machine

end Chip8
