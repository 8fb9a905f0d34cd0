/-
# Faults

What ends a run for good.  A fault carries the program counter of the instruction that raised it
and, where the word itself is to blame, the word.  `Fault.message` is the sentence that reports
it: words have four hexadecimal digits, program counters at least three.
-/
import Chip8.Instruction.Coding

namespace Chip8

/-- A fault, with the program counter at which it arose. -/
inductive Fault
  /-- The word is zero: as a rule the run has left the program. -/
  | emptyWord (pc : UInt16)
  /-- The word fits no pattern. -/
  | unknownWord (word pc : UInt16)
  /-- The word calls a routine of the host processor. -/
  | routine (word pc : UInt16)
  /-- A call with the call stack full. -/
  | stackFull (pc : UInt16)
  /-- A return with the call stack empty. -/
  | stackEmpty (pc : UInt16)
deriving DecidableEq

/-- The fault of a word that was fetched at `pc` and could not be decoded. -/
def DecodeError.at (e : DecodeError) (pc : UInt16) : Fault :=
  match e with
  | .empty => .emptyWord pc
  | .unknown word => .unknownWord word pc

namespace Fault

/-- Where the fault arose. -/
def pc : Fault → UInt16
  | .emptyWord pc | .unknownWord _ pc | .routine _ pc | .stackFull pc | .stackEmpty pc => pc

/-- The word that is to blame, for the faults that name one. -/
def word? : Fault → Option UInt16
  | .unknownWord word _ | .routine word _ => some word
  | .emptyWord _ | .stackFull _ | .stackEmpty _ => none

@[simp] theorem pc_at (e : DecodeError) (pc : UInt16) : (e.at pc).pc = pc := by
  cases e <;> rfl

/-- The name of the kind of fault. -/
def kind : Fault → String
  | .emptyWord _ => "EmptyOpcode"
  | .unknownWord _ _ => "UnknownOpcode"
  | .routine _ _ => "UnsupportedOperation"
  | .stackFull _ => "StackOverflow"
  | .stackEmpty _ => "StackUnderflow"

/-- The sentence that reports the fault. -/
def message : Fault → String
  | .emptyWord pc => "empty opcode 0x0000 at pc " ++ hexWord 3 pc.toNat
  | .unknownWord word pc =>
    "unknown opcode " ++ hexWord 4 word.toNat ++ " at pc " ++ hexWord 3 pc.toNat
  | .routine word pc =>
    "machine code routine " ++ hexWord 4 word.toNat ++ " at pc " ++ hexWord 3 pc.toNat
      ++ " is not supported"
  | .stackFull pc => "call stack overflow at pc " ++ hexWord 3 pc.toNat
  | .stackEmpty pc => "return with empty call stack at pc " ++ hexWord 3 pc.toNat

/-- The fault with its fields in decimal. -/
def text (f : Fault) : String :=
  let place := Field.number "pc" f.pc.toNat
  labelled f.kind (match f.word? with
    | some word => [.number "opcode" word.toNat, place]
    | none => [place])

end Fault

end Chip8
