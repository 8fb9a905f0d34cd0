/-
# What an instruction changes, and what it depends on

Every instruction moves the program counter, and most change registers, the index or the call stack.
The rest of a machine is touched by a handful of instructions only: `Machine.surroundings` is that
rest, and `surroundings_execute` lists, instruction by instruction, what becomes of it.  That an
instruction leaves some part alone is read off from there.  Which registers an instruction may
write, and whether it may move the index, stand in tables of their own (`Instruction.Writes`,
`Instruction.movesIndex`).

No instruction depends on whether the screen was taken since it was drawn on: machines that differ
in that mark only do the same and then differ in nothing but the mark (`unmarked_execute`,
`Emulator.act_of_unmarked_eq`).  `Emulator.tick_congr` takes such a fact about one instruction to
the whole tick.

`Machine.Achieves` is total correctness of an instruction, for the instruction alone and for a tick
that executes it.  `memory_of_not_mayStore` takes what keeps the memory from one operation to a
run.
-/
import Chip8.Proofs.History
import Chip8.Proofs.Machine.Control

namespace Chip8

/-! ## 1. What an instruction changes -/

/-- Whether an instruction does no more than to say where the run goes on. -/
def Instruction.steers : Instruction → Bool
  | .routine _ | .ret | .jump _ | .call _ | .jumpPlus _ => true
  | .skipEqual _ _ | .skipUnequal _ _ | .skipSame _ _ | .skipDifferent _ _ => true
  | .skipDown _ | .skipUp _ => true
  | _ => false

namespace Machine

/-- A machine without its registers, its index, its program counter and its call stack. -/
def surroundings (m : Machine) : Machine := { m with v := .zero, index := 0, pc := 0, stack := [] }

@[simp] theorem surroundings_report (m : Machine) (flag : Option UInt8) :
    (m.report flag).surroundings = m.surroundings := by
  cases flag <;> rfl

/-- **An instruction that only steers the run** changes the program counter and the call stack at
most. -/
theorem machine_execute_of_steers (m : Machine) (byte : UInt8) {i : Instruction}
    (h : i.steers = true) :
    ∃ pc stack, (m.execute byte i).machine = { m with pc := pc, stack := stack } := by
  have hskip : ∀ skip, ∃ pc stack, m.skipIf skip = { m with pc := pc, stack := stack } := by
    intro skip
    cases skip <;> exact ⟨_, _, rfl⟩
  cases i with
  | ret =>
    simp only [execute, pop]
    cases m.stack.head? <;> exact ⟨_, _, rfl⟩
  | call target =>
    by_cases hroom : m.stack.length < stackLimit
    · simp only [execute, push, if_pos hroom]
      exact ⟨_, _, rfl⟩
    · simp only [execute, push, if_neg hroom]
      exact ⟨_, _, rfl⟩
  | skipEqual x b | skipUnequal x b | skipSame x y | skipDifferent x y | skipDown x | skipUp x =>
    exact hskip _
  | routine target | jump target | jumpPlus target => exact ⟨_, _, rfl⟩
  | _ => cases h

/-- What an instruction makes of the surroundings. -/
def changed (m : Machine) (i : Instruction) : Machine :=
  match i with
  | .clear => { m.surroundings with screen := .blank, redraw := true }
  | .draw x y rows => (m.drawSprite x y rows.val).surroundings
  | .setDelay x => { m.surroundings with delay := ⟨m.v.get x⟩ }
  | .setSound x => { m.surroundings with sound := ⟨m.v.get x⟩ }
  | .storeDecimal _ | .storeRegisters _ =>
    { m.surroundings with memory := m.memory.store m.index.toNat (m.written i) }
  | _ => m.surroundings

theorem changed_of_steers (m : Machine) {i : Instruction} (h : i.steers = true) :
    m.changed i = m.surroundings := by
  cases i with
  | clear | draw x y rows | setDelay x | setSound x => cases h
  | storeDecimal x | storeRegisters x => cases h
  | _ => rfl

/-- **What an instruction changes beside the registers, the index and the control of the run.** -/
theorem surroundings_execute (m : Machine) (byte : UInt8) (i : Instruction) :
    (m.execute byte i).machine.surroundings = m.changed i := by
  by_cases hsteers : i.steers = true
  · obtain ⟨pc, stack, hsame⟩ := m.machine_execute_of_steers byte hsteers
    rw [hsame, m.changed_of_steers hsteers]
    rfl
  cases i with
  | waitKey x =>
    simp only [execute]
    cases m.keys.lowest? <;> rfl
  | combine op x y => exact surroundings_report ..
  | clear | setByte x b | addByte x b | random x mask | draw x y rows => rfl
  | setIndex target | addIndex x | pointGlyph x => rfl
  | readDelay x | setDelay x | setSound x => rfl
  | storeDecimal x | storeRegisters x | loadRegisters x => rfl
  | _ => exact absurd rfl hsteers

end Machine

/-- Whether an operation reports something in VF: `8XY4` to `8XY7` and `8XYE`. -/
def Arithmetic.reports : Arithmetic → Bool
  | .add | .sub | .shiftRight | .subFrom | .shiftLeft => true
  | .copy | .or | .and | .xor => false

namespace Instruction

/-- Whether an instruction may write a register. -/
def Writes : Instruction → Register → Prop
  | .setByte x _ | .addByte x _ | .random x _ | .readDelay x | .waitKey x => (· = x)
  | .combine op x _ => fun z => z = x ∨ (op.reports = true ∧ z = .flag)
  | .draw _ _ _ | .addIndex _ => (· = .flag)
  | .loadRegisters x => (· ≤ x)
  | _ => fun _ => False

/-- Whether an instruction stores bytes in memory. -/
def stores : Instruction → Bool
  | .storeDecimal _ | .storeRegisters _ => true
  | _ => false

/-- Whether an instruction may move the index, in a dialect. -/
def movesIndex (d : Dialect) : Instruction → Bool
  | .setIndex _ | .addIndex _ | .pointGlyph _ => true
  | .storeRegisters _ | .loadRegisters _ => d.transferMovesIndex
  | _ => false

end Instruction

namespace Machine

@[simp] theorem get_put (m : Machine) (x z : Register) (byte : UInt8) :
    (m.put x byte).v.get z = if x = z then byte else m.v.get z := Registers.get_set ..

theorem get_put_of_ne {m : Machine} {x z : Register} (byte : UInt8) (h : z ≠ x) :
    (m.put x byte).v.get z = m.v.get z := by
  rw [get_put, if_neg (Ne.symm h)]

theorem index_report (m : Machine) (flag : Option UInt8) : (m.report flag).index = m.index := by
  cases flag <;> rfl

/-- An operation that reports nothing has no report, and any other has one. -/
theorem isSome_snd_eval (d : Dialect) (op : Arithmetic) (a b : UInt8) :
    (op.eval d a b).2.isSome = op.reports := by
  cases op <;> rfl

theorem get_report_of_ne {m : Machine} {flag : Option UInt8} {z : Register}
    (h : flag.isSome = true → z ≠ .flag) : (m.report flag).v.get z = m.v.get z := by
  cases flag with
  | none => rfl
  | some byte => exact get_put_of_ne byte (h rfl)

/-- **The registers that an instruction leaves alone.** -/
theorem get_execute_of_not_writes (m : Machine) (byte : UInt8) {i : Instruction} {z : Register}
    (h : ¬ i.Writes z) : (m.execute byte i).machine.v.get z = m.v.get z := by
  by_cases hsteers : i.steers = true
  · obtain ⟨pc, stack, hsame⟩ := m.machine_execute_of_steers byte hsteers
    rw [hsame]
  cases i with
  | waitKey x =>
    simp only [execute]
    cases m.keys.lowest? with
    | none => rfl
    | some key => exact get_put_of_ne _ h
  | combine op x y =>
    obtain ⟨hx, hreports⟩ := not_or.mp h
    have hflag : (op.eval m.dialect (m.v.get x) (m.v.get y)).2.isSome = true → z ≠ .flag := by
      rw [isSome_snd_eval]
      exact fun hop hz => hreports ⟨hop, hz⟩
    exact (get_put_of_ne _ hx).trans (get_report_of_ne hflag)
  | setByte x b | addByte x b | random x mask | readDelay x => exact get_put_of_ne _ h
  | draw x y rows | addIndex x => exact get_put_of_ne _ h
  | loadRegisters x =>
    have hbeyond : ¬ (0 ≤ z.val ∧
        z.val < 0 + (m.memory.slice m.index.toNat (x.val + 1)).length) := by
      rw [Memory.length_slice]
      exact fun hz => h (Fin.le_def.mpr (by omega))
    exact (Registers.get_fill ..).trans (if_neg hbeyond)
  | clear | setIndex target | setDelay x | setSound x | pointGlyph x => rfl
  | storeDecimal x | storeRegisters x => rfl
  | _ => exact absurd rfl hsteers

/-- **No instruction presses a key.** -/
theorem keys_execute (m : Machine) (byte : UInt8) (i : Instruction) :
    (m.execute byte i).machine.keys = m.keys := by
  have hsame : (m.changed i).keys = m.keys := by
    cases i <;> rfl
  exact (congrArg keys (m.surroundings_execute byte i)).trans hsame

/-- **No instruction changes the dialect.** -/
theorem dialect_execute (m : Machine) (byte : UInt8) (i : Instruction) :
    (m.execute byte i).machine.dialect = m.dialect := by
  have hsame : (m.changed i).dialect = m.dialect := by
    cases i <;> rfl
  exact (congrArg dialect (m.surroundings_execute byte i)).trans hsame

/-- **An instruction that does not store leaves the memory alone.** -/
theorem memory_execute_of_not_stores (m : Machine) (byte : UInt8) {i : Instruction}
    (h : i.stores = false) : (m.execute byte i).machine.memory = m.memory := by
  have hsame : (m.changed i).memory = m.memory := by
    cases i with
    | storeDecimal x | storeRegisters x => cases h
    | _ => rfl
  exact (congrArg memory (m.surroundings_execute byte i)).trans hsame

/-- **An instruction that does not move the index leaves it.** -/
theorem index_execute_of_not_moves (m : Machine) (byte : UInt8) {i : Instruction}
    (h : i.movesIndex m.dialect = false) : (m.execute byte i).machine.index = m.index := by
  by_cases hsteers : i.steers = true
  · obtain ⟨pc, stack, hsame⟩ := m.machine_execute_of_steers byte hsteers
    rw [hsame]
  cases i with
  | waitKey x =>
    simp only [execute]
    cases m.keys.lowest? <;> rfl
  | combine op x y => exact index_report ..
  | storeRegisters x | loadRegisters x =>
    exact if_neg fun hmoves : m.dialect.transferMovesIndex = true => by cases hmoves.symm.trans h
  | setIndex target | addIndex x | pointGlyph x => cases h
  | clear | setByte x b | addByte x b | random x mask | draw x y rows => rfl
  | readDelay x | setDelay x | setSound x | storeDecimal x => rfl
  | _ => exact absurd rfl hsteers

end Machine

/-! ## 2. What an instruction does not depend on -/

/-- An outcome with its machine seen through a view. -/
def Outcome.map (view : Machine → Machine) : Outcome → Outcome
  | .done m => .done (view m)
  | .stopped stop m => .stopped stop (view m)

@[simp] theorem Outcome.map_id (o : Outcome) : o.map id = o := by
  cases o <;> rfl

@[simp] theorem Outcome.machine_map (view : Machine → Machine) (o : Outcome) :
    (o.map view).machine = view o.machine := by
  cases o <;> rfl

@[simp] theorem Outcome.result_map (view : Machine → Machine) (o : Outcome) :
    (o.map view).result = o.result := by
  cases o <;> rfl

@[simp] theorem Outcome.notices_map (view : Machine → Machine) (o : Outcome) :
    (o.map view).notices = o.notices := by
  cases o with
  | done m => rfl
  | stopped stop m => cases stop <;> rfl

namespace Machine

/-- A machine without the mark that says whether its screen was drawn on since it was taken. -/
def unmarked (m : Machine) : Machine := { m with redraw := false }

theorem unmarked_skipIf (m : Machine) (skip : Bool) :
    (m.unmarked.skipIf skip).unmarked = (m.skipIf skip).unmarked := by
  cases skip <;> rfl

theorem unmarked_report_put (m : Machine) (flag : Option UInt8) (x : Register) (byte : UInt8) :
    ((m.unmarked.report flag).put x byte).unmarked = ((m.report flag).put x byte).unmarked := by
  cases flag <;> rfl

theorem unmarked_next {m m' : Machine} (h : m.unmarked = m'.unmarked) :
    m.next.unmarked = m'.next.unmarked := congrArg next h

/-- **The mark makes no difference to an instruction.** -/
theorem unmarked_execute (m : Machine) (byte : UInt8) (i : Instruction) :
    (m.unmarked.execute byte i).map unmarked = (m.execute byte i).map unmarked := by
  cases i with
  | ret =>
    have hstack : m.unmarked.stack = m.stack := rfl
    simp only [execute, pop, hstack]
    cases m.stack.head? <;> rfl
  | call target =>
    have hstack : m.unmarked.stack = m.stack := rfl
    by_cases hroom : m.stack.length < stackLimit
    · simp only [execute, push, hstack, if_pos hroom]
      rfl
    · simp only [execute, push, hstack, if_neg hroom]
      rfl
  | waitKey x =>
    have hkeys : m.unmarked.keys = m.keys := rfl
    simp only [execute, hkeys]
    cases m.keys.lowest? <;> rfl
  | combine op x y =>
    exact congrArg Outcome.done (unmarked_next (unmarked_report_put ..))
  | skipEqual x b | skipUnequal x b | skipSame x y | skipDifferent x y | skipDown x | skipUp x =>
    exact congrArg Outcome.done (unmarked_skipIf ..)
  | _ => rfl

theorem unmarked_step (m : Machine) (byte : UInt8) :
    (m.unmarked.step byte).map unmarked = (m.step byte).map unmarked := by
  have hfetch : m.unmarked.fetch = m.fetch := rfl
  simp only [step, hfetch]
  cases decode m.fetch with
  | error e => rfl
  | ok i => exact m.unmarked_execute byte i

end Machine

namespace Emulator

variable {π : Type}

/-- An emulator with its machine seen through a view. -/
def mapMachine (view : Machine → Machine) (e : Emulator π) : Emulator π :=
  { e with machine := view e.machine }

/-- An emulator without the mark of its machine. -/
def unmarked (e : Emulator π) : Emulator π := e.mapMachine Machine.unmarked

variable [Platform π]

/-- **Ticks that are the same through views.**  If two emulators draw the same byte and announce the
same, and their instructions come to the same through two views and leave the same tone, then so do
their ticks. -/
theorem tick_congr {e e' : Emulator π} {f g : Machine → Machine}
    (hsupply : e'.supply = e.supply) (hneeds : e'.machine.needsRandom = e.machine.needsRandom)
    (hannounced : e'.machine.announced = e.machine.announced)
    (hstep : (e'.machine.step e.supply.1).map f = (e.machine.step e.supply.1).map g)
    (hactive : (e'.machine.step e.supply.1).machine.sound.isActive
      = (e.machine.step e.supply.1).machine.sound.isActive) :
    e'.tick.map (mapMachine f) = e.tick.map (mapMachine g) := by
  let o := e.machine.step e.supply.1
  let o' := e'.machine.step e.supply.1
  have hresult : o'.result = o.result := by simpa using congrArg Outcome.result hstep
  have hnotices : o'.notices = o.notices := by simpa using congrArg Outcome.notices hstep
  have hmachine : f o'.machine = g o.machine := by simpa using congrArg Outcome.machine hstep
  simp only [Step.map, mapMachine, tick, hsupply, hneeds, hannounced, hactive]
  exact Step.ext hresult (Emulator.ext hmachine rfl) (by rw [hnotices])

theorem unmarked_tick (e : Emulator π) : e.unmarked.tick.map unmarked = e.tick.map unmarked := by
  have hstep := e.machine.unmarked_step e.supply.1
  have hmachine := congrArg Outcome.machine hstep
  rw [Outcome.machine_map, Outcome.machine_map] at hmachine
  have hsound : (e.machine.unmarked.step e.supply.1).machine.unmarked.sound
      = (e.machine.step e.supply.1).machine.unmarked.sound := congrArg Machine.sound hmachine
  exact tick_congr rfl rfl rfl hstep (congrArg Countdown.isActive hsound)

theorem unmarked_act (e : Emulator π) (a : Activity) :
    (e.unmarked.act a).map unmarked = (e.act a).map unmarked := by
  cases a with
  | timer => rfl
  | cycle =>
    have htick := e.unmarked_tick
    have hresult := congrArg Step.result htick
    have hstate := congrArg Step.state htick
    have hevents := congrArg Step.events htick
    exact Step.ext (congrArg Stop.fault? hresult) hstate hevents

/-- **Emulators that differ in the mark only do the same**, and then differ in the mark only. -/
theorem act_of_unmarked_eq {e e' : Emulator π} (h : e.unmarked = e'.unmarked) (a : Activity) :
    (e.act a).map unmarked = (e'.act a).map unmarked := by
  rw [← unmarked_act e, h, unmarked_act]

end Emulator

/-! ## 3. What an instruction achieves -/

namespace Machine

/-- **Total correctness of an instruction**: it takes effect, whatever byte it draws, and leaves a
machine with `P`; so does a tick, on whatever platform, that finds the instruction at the program
counter. -/
structure Achieves (m : Machine) (i : Instruction) (P : Machine → Prop) : Prop where
  execute : ∀ byte, ∃ m', m.execute byte i = .done m' ∧ P m'
  tick : ∀ {π : Type} [Platform π] (e : Emulator π), e.machine = m → decode m.fetch = .ok i →
    e.tick.result = .ok () ∧ P e.tick.state.machine

variable {m : Machine} {i : Instruction} {P Q : Machine → Prop}

/-- A tick achieves what the instruction achieves. -/
theorem achieves_of_execute (h : ∀ byte, ∃ m', m.execute byte i = .done m' ∧ P m') :
    m.Achieves i P := by
  refine ⟨h, ?_⟩
  rintro π _ e rfl hdecode
  obtain ⟨m', hexecute, hm'⟩ := h e.supply.1
  have hstep : e.machine.step e.supply.1 = .done m' := by
    simp only [step, hdecode, hexecute]
  have hmachine : e.tick.state.machine = m' := congrArg Outcome.machine hstep
  refine ⟨congrArg Outcome.result hstep, ?_⟩
  rwa [hmachine]

theorem Achieves.mono (h : m.Achieves i P) (hPQ : ∀ m', P m' → Q m') : m.Achieves i Q := by
  refine achieves_of_execute fun byte => ?_
  obtain ⟨m', hexecute, hm'⟩ := h.execute byte
  exact ⟨m', hexecute, hPQ m' hm'⟩

end Machine

/-! ## 4. Runs that keep the memory -/

namespace Emulator

variable {π : Type} [Platform π]

/-- Whether the memory may have changed: the machine was reset, a program was loaded, or bytes were
stored. -/
def Moment.mayStore (t : Moment π) : Bool :=
  match t.input with
  | .tick => t.state.machine.instruction?.any Instruction.stores
  | .load _ | .reset => true
  | .countDown | .setKey _ _ | .takeScreen => false

/-- A tick leaves the machine as it was, if there is no instruction, or executes the one there is. -/
theorem machine_tick_cases (e : Emulator π) :
    (e.machine.instruction? = none ∧ e.tick.state.machine = e.machine) ∨
      ∃ i, e.machine.instruction? = some i ∧
        e.tick.state.machine = (e.machine.execute e.supply.1 i).machine := by
  have htick : e.tick.state.machine = (e.machine.step e.supply.1).machine := rfl
  rw [htick, Machine.step, Machine.instruction?]
  cases decode e.machine.fetch with
  | error error => exact Or.inl ⟨rfl, rfl⟩
  | ok i => exact Or.inr ⟨i, rfl, rfl⟩

theorem memory_perform_of_not_mayStore {e : Emulator π} {op : Operation}
    (h : Moment.mayStore ⟨e, op⟩ = false) :
    (e.perform op).state.machine.memory = e.machine.memory := by
  cases op with
  | tick =>
    show e.tick.state.machine.memory = e.machine.memory
    obtain ⟨-, hsame⟩ | ⟨i, hi, hexecute⟩ := e.machine_tick_cases
    · rw [hsame]
    · have hstores : i.stores = false := by simpa [Moment.mayStore, hi] using h
      rw [hexecute, Machine.memory_execute_of_not_stores _ _ hstores]
  | countDown | setKey key down | takeScreen => rfl
  | load program | reset => cases h

/-- **A run that stores nothing keeps the memory.** -/
theorem memory_of_not_mayStore {e : Emulator π} {ops : List Operation}
    (h : ∀ t ∈ e.history ops, t.mayStore = false) :
    (∀ t ∈ e.history ops, t.state.machine.memory = e.machine.memory) ∧
      (e.performAll ops).state.machine.memory = e.machine.memory := by
  refine Step.moments_invariant
    (P := fun after : Emulator π => after.machine.memory = e.machine.memory) ?_ rfl
  intro t ht hsame
  exact (memory_perform_of_not_mayStore (h t ht)).trans hsame

end Emulator

end Chip8
