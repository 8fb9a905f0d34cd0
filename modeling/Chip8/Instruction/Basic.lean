/-
# Instructions

The thirty-five instructions a program word can stand for, grouped where they share a shape: the
nine register-to-register operations `8XY?` are one constructor with an `Arithmetic`.

Operands are typed by what they name, so no instruction can name a register or an address that
does not exist: registers and sprite heights are below 16, addresses below 4096.

`Instruction.text` shows an instruction by the pattern of its word and its operands, as in
`_DXYN { x: 1, y: 2, n: 5 }`.
-/
import Chip8.Text.Labelled

namespace Chip8

/-- One of the sixteen registers V0 to VF. -/
abbrev Register := Fin 16

/-- The register that a jump with offset adds. -/
def Register.offset : Register := ⟨0, by decide⟩

/-- The register that reports carries, borrows, shifted-out bits and collisions. -/
def Register.flag : Register := ⟨15, by decide⟩

/-- One of the 4096 addresses an instruction can name. -/
abbrev Address := Fin 4096

/-! ## 1. Register-to-register operations -/

/-- What `8XY?` computes from VX and VY into VX. -/
inductive Arithmetic
  | copy
  | or
  | and
  | xor
  | add
  | sub
  | shiftRight
  | subFrom
  | shiftLeft
deriving DecidableEq

/-- The last hexadecimal digit of the operation's word. -/
def Arithmetic.nibble : Arithmetic → Fin 16
  | .copy => 0x0
  | .or => 0x1
  | .and => 0x2
  | .xor => 0x3
  | .add => 0x4
  | .sub => 0x5
  | .shiftRight => 0x6
  | .subFrom => 0x7
  | .shiftLeft => 0xE

/-- The operation with a given last digit. -/
def Arithmetic.ofNibble? (n : Fin 16) : Option Arithmetic :=
  [.copy, .or, .and, .xor, .add, .sub, .shiftRight, .subFrom, .shiftLeft].find?
    fun op => op.nibble = n

theorem Arithmetic.ofNibble?_nibble (op : Arithmetic) : ofNibble? op.nibble = some op := by
  cases op <;> decide

theorem Arithmetic.nibble_of_ofNibble? {n : Fin 16} {op : Arithmetic}
    (h : ofNibble? n = some op) : op.nibble = n := by
  simpa using List.find?_some h

/-! ## 2. Instructions -/

/-- One instruction with its operands. -/
inductive Instruction
  /-- Runs a routine of the host processor: `0NNN`. -/
  | routine (target : Address)
  /-- Clears the screen: `00E0`. -/
  | clear
  /-- Returns from a subroutine: `00EE`. -/
  | ret
  /-- Jumps: `1NNN`. -/
  | jump (target : Address)
  /-- Calls the subroutine at an address: `2NNN`. -/
  | call (target : Address)
  /-- Skips the next instruction if VX is the byte: `3XNN`. -/
  | skipEqual (x : Register) (byte : UInt8)
  /-- Skips the next instruction unless VX is the byte: `4XNN`. -/
  | skipUnequal (x : Register) (byte : UInt8)
  /-- Skips the next instruction if VX and VY agree: `5XY0`. -/
  | skipSame (x y : Register)
  /-- Stores the byte in VX: `6XNN`. -/
  | setByte (x : Register) (byte : UInt8)
  /-- Adds the byte to VX, VF untouched: `7XNN`. -/
  | addByte (x : Register) (byte : UInt8)
  /-- Combines VX and VY into VX: `8XY?`. -/
  | combine (op : Arithmetic) (x y : Register)
  /-- Skips the next instruction if VX and VY differ: `9XY0`. -/
  | skipDifferent (x y : Register)
  /-- Stores an address in I: `ANNN`. -/
  | setIndex (target : Address)
  /-- Jumps to an address plus V0: `BNNN`. -/
  | jumpPlus (target : Address)
  /-- Stores a random byte, masked, in VX: `CXNN`. -/
  | random (x : Register) (mask : UInt8)
  /-- Draws a sprite of some rows at (VX, VY): `DXYN`. -/
  | draw (x y : Register) (rows : Fin 16)
  /-- Skips the next instruction if the key in VX is down: `EX9E`. -/
  | skipDown (x : Register)
  /-- Skips the next instruction if the key in VX is up: `EXA1`. -/
  | skipUp (x : Register)
  /-- Stores the delay timer in VX: `FX07`. -/
  | readDelay (x : Register)
  /-- Waits for a key and stores it in VX: `FX0A`. -/
  | waitKey (x : Register)
  /-- Sets the delay timer to VX: `FX15`. -/
  | setDelay (x : Register)
  /-- Sets the sound timer to VX: `FX18`. -/
  | setSound (x : Register)
  /-- Adds VX to I: `FX1E`. -/
  | addIndex (x : Register)
  /-- Points I at the glyph of the low digit of VX: `FX29`. -/
  | pointGlyph (x : Register)
  /-- Stores the three decimal digits of VX from I on: `FX33`. -/
  | storeDecimal (x : Register)
  /-- Stores V0 to VX from I on: `FX55`. -/
  | storeRegisters (x : Register)
  /-- Fills V0 to VX from I on: `FX65`. -/
  | loadRegisters (x : Register)
deriving DecidableEq

namespace Instruction

/-- Whether executing the instruction draws a random byte from the platform. -/
def isRandom : Instruction → Bool
  | .random _ _ => true
  | _ => false

/-! ## 3. Text -/

/-- The pattern of the instruction's word, operand digits named by letters. -/
def pattern : Instruction → String
  | .routine _ => "_0NNN"
  | .clear => "_00E0"
  | .ret => "_00EE"
  | .jump _ => "_1NNN"
  | .call _ => "_2NNN"
  | .skipEqual _ _ => "_3XNN"
  | .skipUnequal _ _ => "_4XNN"
  | .skipSame _ _ => "_5XY0"
  | .setByte _ _ => "_6XNN"
  | .addByte _ _ => "_7XNN"
  | .combine .copy _ _ => "_8XY0"
  | .combine .or _ _ => "_8XY1"
  | .combine .and _ _ => "_8XY2"
  | .combine .xor _ _ => "_8XY3"
  | .combine .add _ _ => "_8XY4"
  | .combine .sub _ _ => "_8XY5"
  | .combine .shiftRight _ _ => "_8XY6"
  | .combine .subFrom _ _ => "_8XY7"
  | .combine .shiftLeft _ _ => "_8XYE"
  | .skipDifferent _ _ => "_9XY0"
  | .setIndex _ => "_ANNN"
  | .jumpPlus _ => "_BNNN"
  | .random _ _ => "_CXNN"
  | .draw _ _ _ => "_DXYN"
  | .skipDown _ => "_EX9E"
  | .skipUp _ => "_EXA1"
  | .readDelay _ => "_FX07"
  | .waitKey _ => "_FX0A"
  | .setDelay _ => "_FX15"
  | .setSound _ => "_FX18"
  | .addIndex _ => "_FX1E"
  | .pointGlyph _ => "_FX29"
  | .storeDecimal _ => "_FX33"
  | .storeRegisters _ => "_FX55"
  | .loadRegisters _ => "_FX65"

/-- The operands, named as in the pattern. -/
def operands : Instruction → List Field
  | .clear | .ret => []
  | .routine t | .jump t | .call t | .setIndex t | .jumpPlus t => [.number "nnn" t.val]
  | .skipEqual x b | .skipUnequal x b | .setByte x b | .addByte x b | .random x b =>
    [.number "x" x.val, .number "nn" b.toNat]
  | .skipSame x y | .combine _ x y | .skipDifferent x y => [.number "x" x.val, .number "y" y.val]
  | .draw x y n => [.number "x" x.val, .number "y" y.val, .number "n" n.val]
  | .skipDown x | .skipUp x | .readDelay x | .waitKey x | .setDelay x | .setSound x
  | .addIndex x | .pointGlyph x | .storeDecimal x | .storeRegisters x | .loadRegisters x =>
    [.number "x" x.val]

/-- The instruction as it appears in the trace. -/
def text (i : Instruction) : String := labelled i.pattern i.operands

end Instruction

end Chip8
