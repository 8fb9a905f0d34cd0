/-
# Which registers an instruction has to do with

An instruction names at most two registers, and beside them it may have to do with VF, with V0 or,
in a transfer, with all registers up to the one it names.  `Instruction.registerNumbers` lists them
by their numbers, as they are looked up.

* The list is complete: `execute_only` says that an instruction sees no other register, and
  `get_execute_of_not_numbered` that it changes no other.
* Every number on it is that of a register (`lt_of_mem_registerNumbers`), so there is no look-up
  past VF.
-/
import Chip8.Proofs.Machine.Effects

namespace Chip8

/-! ## 1. The numbers -/

/-- The numbers of the registers that an instruction has to do with: those that its word names, VF
if it reports something there, V0 if it jumps by it, and for a transfer all up to VX. -/
def Instruction.registerNumbers : Instruction → List Nat
  | .routine _ | .clear | .ret | .jump _ | .call _ | .setIndex _ => []
  | .jumpPlus _ => [Register.offset.val]
  | .skipEqual x _ | .skipUnequal x _ | .setByte x _ | .addByte x _ | .random x _ => [x.val]
  | .skipDown x | .skipUp x | .readDelay x | .waitKey x | .setDelay x | .setSound x => [x.val]
  | .pointGlyph x | .storeDecimal x => [x.val]
  | .addIndex x => [x.val, Register.flag.val]
  | .skipSame x y | .skipDifferent x y => [x.val, y.val]
  | .combine op x y => x.val :: y.val :: if op.reports then [Register.flag.val] else []
  | .draw x y _ => [x.val, y.val, Register.flag.val]
  | .storeRegisters x | .loadRegisters x => List.range (x.val + 1)

/-- A register that an instruction may write is one of its numbers. -/
theorem Instruction.mem_registerNumbers_of_writes {i : Instruction} {z : Register}
    (h : i.Writes z) : z.val ∈ i.registerNumbers := by
  cases i with
  | setByte x b | addByte x b | random x mask | readDelay x | waitKey x =>
    obtain rfl : z = x := h
    exact List.mem_cons_self
  | combine op x y =>
    rcases h with rfl | ⟨hop, rfl⟩
    · exact List.mem_cons_self
    · simp [registerNumbers, hop]
  | draw x y rows | addIndex x =>
    obtain rfl : z = .flag := h
    simp [registerNumbers]
  | loadRegisters x => exact List.mem_range.mpr (Nat.lt_succ_of_le h)
  | _ => cases h

/-- **Every number is that of a register.** -/
theorem Instruction.lt_of_mem_registerNumbers {i : Instruction} {k : Nat}
    (h : k ∈ i.registerNumbers) : k < 16 := by
  cases i with
  | combine op x y =>
    rcases List.mem_cons.mp h with rfl | h
    · exact x.isLt
    rcases List.mem_cons.mp h with rfl | h
    · exact y.isLt
    split at h
    · obtain rfl := List.mem_singleton.mp h
      exact Register.flag.isLt
    · cases h
  | storeRegisters x | loadRegisters x =>
    exact Nat.lt_of_lt_of_le (List.mem_range.mp h) x.isLt
  | _ => grind [registerNumbers]

/-! ## 2. A machine with some of its registers -/

/-- The registers with some of the numbers, and zero in place of the others. -/
@[irreducible]
def Registers.only (v : Registers) (ns : List Nat) : Registers :=
  ⟨Vector.ofFn fun z => if z.val ∈ ns then v.get z else 0⟩

theorem Registers.get_only (v : Registers) (ns : List Nat) (z : Register) :
    (v.only ns).get z = if z.val ∈ ns then v.get z else 0 := by
  simp [only, get]

namespace Machine

/-- A machine with some of its registers, and zero in place of the others. -/
def only (ns : List Nat) (m : Machine) : Machine := { m with v := m.v.only ns }

section Only

variable {ns : List Nat} {m : Machine}

theorem get_only_of_mem {z : Register} (h : z.val ∈ ns) : (m.only ns).v.get z = m.v.get z :=
  (Registers.get_only ..).trans (if_pos h)

/-- Machines that differ in the other registers only. -/
theorem only_eq_only {m m' : Machine} (hrest : { m with v := .zero } = { m' with v := .zero })
    (h : ∀ z : Register, z.val ∈ ns → m.v.get z = m'.v.get z) : m.only ns = m'.only ns := by
  have hv : m.v.only ns = m'.v.only ns := by
    refine Registers.ext_get fun z => ?_
    rw [Registers.get_only, Registers.get_only]
    split
    · exact h z ‹_›
    · rfl
  have hsame := congrArg (fun m₀ : Machine => { m₀ with v := m.v.only ns }) hrest
  simp only at hsame
  rw [only, only, hsame, hv]

theorem only_only : (m.only ns).only ns = m.only ns :=
  only_eq_only rfl fun _ hz => get_only_of_mem hz

theorem get_put_only {z : Register} (h : z.val ∈ ns) (x : Register) (byte : UInt8) :
    ((m.only ns).put x byte).v.get z = (m.put x byte).v.get z := by
  rw [get_put, get_put, get_only_of_mem h]

theorem only_put (x : Register) (byte : UInt8) :
    ((m.only ns).put x byte).only ns = (m.put x byte).only ns :=
  only_eq_only rfl fun _ hz => get_put_only hz x byte

theorem only_report_put (flag : Option UInt8) (x : Register) (byte : UInt8) :
    (((m.only ns).report flag).put x byte).only ns = ((m.report flag).put x byte).only ns := by
  cases flag with
  | none => exact only_put x byte
  | some value =>
    refine only_eq_only rfl fun z hz => ?_
    simp only [report, get_put, get_only_of_mem hz]

theorem only_skipIf (skip : Bool) :
    ((m.only ns).skipIf skip).only ns = (m.skipIf skip).only ns := by
  cases skip with
  | false => exact only_only (m := m.next)
  | true => exact only_only (m := m.next.next)

end Only

/-! ## 3. What an instruction sees and changes -/

/-- A transfer from the registers reads those of its numbers. -/
theorem upTo_only (m : Machine) (x : Register) :
    (m.only (List.range (x.val + 1))).v.upTo x = m.v.upTo x := by
  refine List.ext_getElem? fun k => ?_
  rcases Nat.lt_or_ge x.val k with hk | hk
  · rw [List.getElem?_eq_none (by rwa [Registers.length_upTo]),
      List.getElem?_eq_none (by rwa [Registers.length_upTo])]
  · have hlt : k < 16 := Nat.lt_of_le_of_lt hk x.isLt
    have hle : (⟨k, hlt⟩ : Register) ≤ x := hk
    have hmem : k ∈ List.range (x.val + 1) := List.mem_range.mpr (Nat.lt_succ_of_le hk)
    have hsame := Registers.getElem?_upTo (m.only (List.range (x.val + 1))).v hle
    rw [get_only_of_mem hmem] at hsame
    exact hsame.trans (Registers.getElem?_upTo m.v hle).symm

/-- **An instruction sees no register beside those of its numbers.** -/
theorem execute_only (m : Machine) (byte : UInt8) (i : Instruction) :
    ((m.only i.registerNumbers).execute byte i).map (only i.registerNumbers)
      = (m.execute byte i).map (only i.registerNumbers) := by
  have hget : ∀ z : Register, z.val ∈ i.registerNumbers →
      (m.only i.registerNumbers).v.get z = m.v.get z := fun z => get_only_of_mem
  have hkeys : (m.only i.registerNumbers).keys = m.keys := rfl
  have hstack : (m.only i.registerNumbers).stack = m.stack := rfl
  cases i with
  | routine target => exact congrArg (Outcome.stopped _) only_only
  | ret =>
    simp only [execute, pop, hstack]
    cases m.stack.head? with
    | none => exact congrArg (Outcome.stopped _) (only_eq_only rfl fun _ => get_only_of_mem)
    | some caller => exact congrArg Outcome.done (only_eq_only rfl fun _ => get_only_of_mem)
  | call target =>
    by_cases hroom : m.stack.length < stackLimit
    · simp only [execute, push, hstack, if_pos hroom]
      exact congrArg Outcome.done (only_eq_only rfl fun _ => get_only_of_mem)
    · simp only [execute, push, hstack, if_neg hroom]
      exact congrArg (Outcome.stopped _) only_only
  | waitKey x =>
    simp only [execute, hkeys]
    cases m.keys.lowest? with
    | none => exact congrArg (Outcome.stopped .waiting) only_only
    | some key => exact congrArg (fun m => Outcome.done (next m)) (only_put ..)
  | skipEqual x b | skipUnequal x b | skipDown x | skipUp x =>
    simp only [execute, hget x (by simp [Instruction.registerNumbers]), hkeys]
    exact congrArg Outcome.done (only_skipIf ..)
  | skipSame x y | skipDifferent x y =>
    simp only [execute, hget x (by simp [Instruction.registerNumbers]),
      hget y (by simp [Instruction.registerNumbers])]
    exact congrArg Outcome.done (only_skipIf ..)
  | setByte x b | random x mask | readDelay x =>
    exact congrArg (fun m => Outcome.done (next m)) (only_put ..)
  | addByte x b =>
    simp only [execute, hget x (by simp [Instruction.registerNumbers])]
    exact congrArg (fun m => Outcome.done (next m)) (only_put ..)
  | combine op x y =>
    simp only [execute, hget x (by simp [Instruction.registerNumbers]),
      hget y (by simp [Instruction.registerNumbers])]
    exact congrArg (fun m => Outcome.done (next m)) (only_report_put ..)
  | draw x y rows =>
    simp only [execute, drawSprite, hget x (by simp [Instruction.registerNumbers]),
      hget y (by simp [Instruction.registerNumbers])]
    exact congrArg Outcome.done (only_eq_only rfl fun _ hz => get_put_only hz ..)
  | addIndex x =>
    simp only [execute, hget x (by simp [Instruction.registerNumbers])]
    exact congrArg Outcome.done (only_eq_only rfl fun _ hz => get_put_only hz ..)
  | jumpPlus target =>
    simp only [execute, hget .offset (by simp [Instruction.registerNumbers])]
    exact congrArg Outcome.done (only_eq_only rfl fun _ => get_only_of_mem)
  | setDelay x | setSound x | pointGlyph x | storeDecimal x =>
    simp only [execute, written, hget x (by simp [Instruction.registerNumbers])]
    exact congrArg Outcome.done (only_eq_only rfl fun _ => get_only_of_mem)
  | storeRegisters x =>
    simp only [execute, written, Instruction.registerNumbers, upTo_only]
    exact congrArg Outcome.done (only_eq_only rfl fun _ => get_only_of_mem)
  | loadRegisters x =>
    refine congrArg Outcome.done (only_eq_only rfl fun z hz => ?_)
    show ((m.only _).v.fill 0 _).get z = (m.v.fill 0 _).get z
    rw [Registers.get_fill, Registers.get_fill, hget z hz]
    rfl
  | clear | jump target | setIndex target =>
    exact congrArg Outcome.done (only_eq_only rfl fun _ => get_only_of_mem)

/-- **An instruction changes no register beside those of its numbers.** -/
theorem get_execute_of_not_numbered (m : Machine) (byte : UInt8) {i : Instruction} {z : Register}
    (h : z.val ∉ i.registerNumbers) : (m.execute byte i).machine.v.get z = m.v.get z :=
  m.get_execute_of_not_writes byte fun hz => h (Instruction.mem_registerNumbers_of_writes hz)

end Machine

end Chip8
