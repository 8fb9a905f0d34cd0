/-
# Instruction words

An instruction is one 16-bit word.  `decode` reads a word, `encode` writes one.

* A word is read by its hexadecimal digits: the first selects the family, the others are
  operands or select a member of the family.
* The zero word stands for nothing, and so does any word that fits no pattern; the two are
  told apart, because zero is what memory holds past the end of a program.
* The words `5XY?` and `9XY?` are read whatever their last digit is; `encode` writes it as zero.
-/
import Chip8.Instruction.Basic
import Chip8.Text.Numeral

namespace Chip8

/-! ## 1. Words without a meaning -/

/-- Why a word stands for no instruction. -/
inductive DecodeError
  /-- The zero word. -/
  | empty
  /-- A word that fits no pattern. -/
  | unknown (word : UInt16)
deriving DecidableEq

namespace DecodeError

/-- The sentence that reports it. -/
def message : DecodeError → String
  | .empty => "empty opcode 0x0000"
  | .unknown word => "unknown opcode " ++ hexWord 4 word.toNat

/-- The cause with its word in decimal. -/
def text : DecodeError → String
  | .empty => "Empty"
  | .unknown word => "Unknown(" ++ toString word.toNat ++ ")"

end DecodeError

/-! ## 2. The fields of a word -/

namespace Word

/-- The first digit. -/
def family (w : UInt16) : Nat := w.toNat / 4096

/-- The second digit, which names the register VX. -/
def x (w : UInt16) : Register := ⟨w.toNat / 256 % 16, Nat.mod_lt _ (by decide)⟩

/-- The third digit, which names the register VY. -/
def y (w : UInt16) : Register := ⟨w.toNat / 16 % 16, Nat.mod_lt _ (by decide)⟩

/-- The last digit. -/
def n (w : UInt16) : Fin 16 := ⟨w.toNat % 16, Nat.mod_lt _ (by decide)⟩

/-- The last two digits. -/
def nn (w : UInt16) : UInt8 := UInt8.ofNat (w.toNat % 256)

/-- The last three digits. -/
def nnn (w : UInt16) : Address := ⟨w.toNat % 4096, Nat.mod_lt _ (by decide)⟩

end Word

/-! ## 3. Reading -/

open Word in
/-- The instruction of a word whose first digit is `0`. -/
def Instruction.ofSystem (w : UInt16) : Instruction :=
  if w = 0x00E0 then .clear else if w = 0x00EE then .ret else .routine (nnn w)

/-- The instruction with first digit `E`, by its last two digits. -/
def Instruction.ofKeyTest? (x : Register) : Nat → Option Instruction
  | 0x9E => some (.skipDown x)
  | 0xA1 => some (.skipUp x)
  | _ => none

/-- The instruction with first digit `F`, by its last two digits. -/
def Instruction.ofDevice? (x : Register) : Nat → Option Instruction
  | 0x07 => some (.readDelay x)
  | 0x0A => some (.waitKey x)
  | 0x15 => some (.setDelay x)
  | 0x18 => some (.setSound x)
  | 0x1E => some (.addIndex x)
  | 0x29 => some (.pointGlyph x)
  | 0x33 => some (.storeDecimal x)
  | 0x55 => some (.storeRegisters x)
  | 0x65 => some (.loadRegisters x)
  | _ => none

open Word in
/-- The instruction whose pattern a nonzero word fits. -/
def Instruction.ofWord? (w : UInt16) : Option Instruction :=
  match family w with
  | 0x0 => some (.ofSystem w)
  | 0x1 => some (.jump (nnn w))
  | 0x2 => some (.call (nnn w))
  | 0x3 => some (.skipEqual (x w) (nn w))
  | 0x4 => some (.skipUnequal (x w) (nn w))
  | 0x5 => some (.skipSame (x w) (y w))
  | 0x6 => some (.setByte (x w) (nn w))
  | 0x7 => some (.addByte (x w) (nn w))
  | 0x8 => (Arithmetic.ofNibble? (n w)).map fun op => .combine op (x w) (y w)
  | 0x9 => some (.skipDifferent (x w) (y w))
  | 0xA => some (.setIndex (nnn w))
  | 0xB => some (.jumpPlus (nnn w))
  | 0xC => some (.random (x w) (nn w))
  | 0xD => some (.draw (x w) (y w) (n w))
  | 0xE => Instruction.ofKeyTest? (x w) (nn w).toNat
  | _ => Instruction.ofDevice? (x w) (nn w).toNat

/-- Reads a word. -/
def decode (w : UInt16) : Except DecodeError Instruction :=
  if w = 0 then .error .empty
  else match Instruction.ofWord? w with
    | some i => .ok i
    | none => .error (.unknown w)

theorem decode_eq_empty_iff {w : UInt16} : decode w = .error .empty ↔ w = 0 := by
  unfold decode
  split
  · simp_all
  · split <;> simp_all

theorem decode_zero : decode 0 = .error .empty := rfl

/-- A word that stands for nothing is reported as it is. -/
theorem eq_of_decode_unknown {w u : UInt16} (h : decode w = .error (.unknown u)) : u = w := by
  unfold decode at h
  split at h
  · simp at h
  · split at h <;> simp_all

/-! ## 4. Writing -/

namespace Instruction

/-- A word from its first digit and its last three. -/
def word (family rest : Nat) : UInt16 := UInt16.ofNat (family * 4096 + rest)

/-- A word from its first digit, two registers and its last digit. -/
def wordXYN (family : Nat) (x y : Register) (n : Nat) : UInt16 :=
  word family (x.val * 256 + y.val * 16 + n)

/-- A word from its first digit, a register and its last two digits. -/
def wordXNN (family : Nat) (x : Register) (nn : UInt8) : UInt16 :=
  word family (x.val * 256 + nn.toNat)

/-- Writes an instruction. -/
def encode : Instruction → UInt16
  | .routine t => word 0x0 t.val
  | .clear => 0x00E0
  | .ret => 0x00EE
  | .jump t => word 0x1 t.val
  | .call t => word 0x2 t.val
  | .skipEqual x b => wordXNN 0x3 x b
  | .skipUnequal x b => wordXNN 0x4 x b
  | .skipSame x y => wordXYN 0x5 x y 0
  | .setByte x b => wordXNN 0x6 x b
  | .addByte x b => wordXNN 0x7 x b
  | .combine op x y => wordXYN 0x8 x y op.nibble.val
  | .skipDifferent x y => wordXYN 0x9 x y 0
  | .setIndex t => word 0xA t.val
  | .jumpPlus t => word 0xB t.val
  | .random x mask => wordXNN 0xC x mask
  | .draw x y rows => wordXYN 0xD x y rows.val
  | .skipDown x => wordXNN 0xE x 0x9E
  | .skipUp x => wordXNN 0xE x 0xA1
  | .readDelay x => wordXNN 0xF x 0x07
  | .waitKey x => wordXNN 0xF x 0x0A
  | .setDelay x => wordXNN 0xF x 0x15
  | .setSound x => wordXNN 0xF x 0x18
  | .addIndex x => wordXNN 0xF x 0x1E
  | .pointGlyph x => wordXNN 0xF x 0x29
  | .storeDecimal x => wordXNN 0xF x 0x33
  | .storeRegisters x => wordXNN 0xF x 0x55
  | .loadRegisters x => wordXNN 0xF x 0x65

end Instruction

end Chip8
