/-
# Executing instructions

`Machine.execute` is the effect of one instruction on the machine alone, `Machine.step` that of
the instruction at the program counter.  Neither acts on the platform: the random byte an
instruction may need is passed in.

* An instruction changes the machine step by step and may stop on the way, because it waits for a
  key or because of a fault.  The outcome holds the machine as it is then in either case; that a
  stopped instruction has not changed it is a theorem, not a part of the definition.
* The program counter moves by two past an instruction, and by two more where it skips the next.
* An instruction that reports something in VF writes VF first and its result second, so a result
  in VF replaces the report.
-/
import Chip8.Fault
import Chip8.Machine.Basic
import Chip8.Screen.Sprite

namespace Chip8

/-- Why an instruction did not take effect. -/
inductive Stop
  /-- It waits for a key and is tried again. -/
  | waiting
  /-- It cannot be executed. -/
  | fault (fault : Fault)
deriving DecidableEq

/-- What an instruction came to, with the machine as it left it. -/
inductive Outcome
  /-- It took effect. -/
  | done (machine : Machine)
  /-- It stopped. -/
  | stopped (stop : Stop) (machine : Machine)
deriving DecidableEq

namespace Outcome

/-- The machine afterwards. -/
def machine : Outcome → Machine
  | .done m | .stopped _ m => m

/-- Whether the instruction took effect, or why it stopped. -/
def result : Outcome → Except Stop Unit
  | .done _ => .ok ()
  | .stopped stop _ => .error stop

end Outcome

/-! ## 1. Register-to-register operations -/

/-- The byte that an operation stores in VX, given VX and VY, and what it reports in VF. -/
def Arithmetic.eval (d : Dialect) (op : Arithmetic) (x y : UInt8) : UInt8 × Option UInt8 :=
  let shifted := if d.shiftReadsY then y else x
  match op with
  | .copy => (y, none)
  | .or => (x ||| y, none)
  | .and => (x &&& y, none)
  | .xor => (x ^^^ y, none)
  | .add => (x + y, some (if 255 < x.toNat + y.toNat then 1 else 0))
  | .sub => (x - y, some (if y ≤ x then 1 else 0))
  | .shiftRight => (shifted / 2, some (shifted % 2))
  | .subFrom => (y - x, some (if x ≤ y then 1 else 0))
  | .shiftLeft => (shifted * 2, some (shifted / 128))

/-- The hundreds, tens and units of a byte. -/
def decimalDigits (byte : UInt8) : List UInt8 := [byte / 100, byte / 10 % 10, byte % 10]

namespace Machine

/-! ## 2. Small steps of the state -/

/-- Past one instruction. -/
def next (m : Machine) : Machine := { m with pc := m.pc + 2 }

/-- Past one instruction, and past the one after it if `skip`. -/
def skipIf (m : Machine) (skip : Bool) : Machine := if skip then m.next.next else m.next

/-- Stores a byte in VX. -/
def put (m : Machine) (x : Register) (byte : UInt8) : Machine := { m with v := m.v.set x byte }

/-- Stores a report in VF, if there is one. -/
def report (m : Machine) : Option UInt8 → Machine
  | none => m
  | some flag => m.put .flag flag

/-- Puts an address on the call stack, if there is room; also whether there was. -/
def push (m : Machine) (a : UInt16) : Bool × Machine :=
  if m.stack.length < stackLimit then (true, { m with stack := a :: m.stack }) else (false, m)

/-- Takes the latest address off the call stack, if there is one. -/
def pop (m : Machine) : Option UInt16 × Machine :=
  (m.stack.head?, { m with stack := m.stack.tail })

/-- Moves I past `n` transferred bytes, in the dialects that do so. -/
def movedIndex (m : Machine) (n : Nat) : UInt16 :=
  if m.dialect.transferMovesIndex then m.index + UInt16.ofNat n else m.index

/-- The bytes that an instruction writes to memory from I on. -/
def written (m : Machine) : Instruction → List UInt8
  | .storeDecimal x => decimalDigits (m.v.get x)
  | .storeRegisters x => m.v.upTo x
  | _ => []

/-- The addresses past the end of memory to which an instruction would write. -/
def dropped (m : Machine) (i : Instruction) : List Nat :=
  Memory.overrun m.index.toNat (m.written i)

/-- Draws the `rows` bytes at I as a sprite at (VX, VY) and reports in VF whether a lit cell was
switched off. -/
def drawSprite (m : Machine) (x y : Register) (rows : Nat) : Machine :=
  let origin := (m.v.get x).toNat + Screen.width * (m.v.get y).toNat
  let sprite := m.memory.slice m.index.toNat rows
  let drawn := m.screen.draw (Screen.spriteCells origin sprite)
  { m.put .flag (if drawn.2 then 1 else 0) with screen := drawn.1, redraw := true }

/-! ## 3. One instruction -/

/-- The effect of an instruction; `byte` is the random byte it uses if it uses one. -/
def execute (m : Machine) (byte : UInt8) : Instruction → Outcome
  | .routine target => .stopped (.fault (.routine (UInt16.ofNat target.val) m.pc)) m
  | .clear => .done { m with screen := .blank, redraw := true }.next
  | .ret =>
    match m.pop with
    | (some caller, popped) => .done { popped with pc := caller }.next
    | (none, popped) => .stopped (.fault (.stackEmpty m.pc)) popped
  | .jump target => .done { m with pc := UInt16.ofNat target.val }
  | .call target =>
    match m.push m.pc with
    | (true, pushed) => .done { pushed with pc := UInt16.ofNat target.val }
    | (false, pushed) => .stopped (.fault (.stackFull m.pc)) pushed
  | .skipEqual x b => .done (m.skipIf (m.v.get x = b))
  | .skipUnequal x b => .done (m.skipIf (m.v.get x ≠ b))
  | .skipSame x y => .done (m.skipIf (m.v.get x = m.v.get y))
  | .setByte x b => .done (m.put x b).next
  | .addByte x b => .done (m.put x (m.v.get x + b)).next
  | .combine op x y =>
    let result := op.eval m.dialect (m.v.get x) (m.v.get y)
    .done ((m.report result.2).put x result.1).next
  | .skipDifferent x y => .done (m.skipIf (m.v.get x ≠ m.v.get y))
  | .setIndex target => .done { m with index := UInt16.ofNat target.val }.next
  | .jumpPlus target => .done { m with pc := UInt16.ofNat target.val + (m.v.get .offset).toUInt16 }
  | .random x mask => .done (m.put x (byte &&& mask)).next
  | .draw x y rows => .done (m.drawSprite x y rows.val).next
  | .skipDown x => .done (m.skipIf (m.keys.isDown (m.v.get x)))
  | .skipUp x => .done (m.skipIf (!m.keys.isDown (m.v.get x)))
  | .readDelay x => .done (m.put x m.delay.left).next
  | .waitKey x =>
    match m.keys.lowest? with
    | some key => .done (m.put x (UInt8.ofNat key.val)).next
    | none => .stopped .waiting m
  | .setDelay x => .done { m with delay := ⟨m.v.get x⟩ }.next
  | .setSound x => .done { m with sound := ⟨m.v.get x⟩ }.next
  | .addIndex x =>
    let sum := m.index.toNat + (m.v.get x).toNat
    .done { m.put .flag (if 0xFFF < sum then 1 else 0) with index := UInt16.ofNat sum }.next
  | .pointGlyph x =>
    .done { m with index := UInt16.ofNat (glyphAddress ((m.v.get x).toNat % 16)) }.next
  | .storeDecimal x =>
    .done { m with memory := m.memory.store m.index.toNat (m.written (.storeDecimal x)) }.next
  | .storeRegisters x =>
    .done { m with
      memory := m.memory.store m.index.toNat (m.written (.storeRegisters x))
      index := m.movedIndex (x.val + 1) }.next
  | .loadRegisters x =>
    .done { m with
      v := m.v.fill 0 (m.memory.slice m.index.toNat (x.val + 1))
      index := m.movedIndex (x.val + 1) }.next

/-- The effect of the instruction at the program counter. -/
def step (m : Machine) (byte : UInt8) : Outcome :=
  match decode m.fetch with
  | .error e => .stopped (.fault (e.at m.pc)) m
  | .ok i => m.execute byte i

/-- The instruction at the program counter, if there is one. -/
def instruction? (m : Machine) : Option Instruction := (decode m.fetch).toOption

/-- Whether the instruction at the program counter draws a random byte. -/
def needsRandom (m : Machine) : Bool := m.instruction?.any Instruction.isRandom

end Machine

end Chip8
