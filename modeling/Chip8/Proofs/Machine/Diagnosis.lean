/-
# What a tick comes to

The word at the program counter, the call stack and the keys settle what the next tick comes to.
`Cause` lists why a tick may have no effect, and `Machine.Meets` says when each applies, in terms of
the word's digits alone.

* `Machine.stopFor` is what a cause comes to, with the place and the word that a fault names.
* `obstacle_eq_some_iff`: the instruction is stopped exactly by what a cause that applies comes to.
  Everything else about faults follows from it (`result_tick_classified`).
-/
import Chip8.Proofs.Instruction.Words
import Chip8.Proofs.Machine.Control

namespace Chip8

/-! ## 1. Causes -/

/-- Why a tick may have no effect, without the place. -/
inductive Cause
  | emptyWord
  | unknownWord
  | routine
  | stackFull
  | stackEmpty
  | waiting
deriving DecidableEq

/-- The cause of a fault. -/
def Fault.cause : Fault → Cause
  | .emptyWord _ => .emptyWord
  | .unknownWord _ _ => .unknownWord
  | .routine _ _ => .routine
  | .stackFull _ => .stackFull
  | .stackEmpty _ => .stackEmpty

/-- The cause of a stop. -/
def Stop.cause : Stop → Cause
  | .waiting => .waiting
  | .fault f => f.cause

theorem Keypad.lowest?_eq_none_iff {k : Keypad} :
    k.lowest? = none ↔ ∀ key, k.isDown key = false := by
  rw [lowest?, List.find?_eq_none]
  constructor
  · intro h key
    rw [isDown]
    rcases Nat.lt_or_ge key.toNat 16 with hkey | hkey
    · have hup := h ⟨key.toNat, hkey⟩ (List.mem_finRange _)
      rw [Vector.getElem?_eq_getElem hkey]
      simpa using hup
    · rw [Vector.getElem?_eq_none hkey]
      rfl
  · intro h key _
    have hkey : (UInt8.ofNat key.val).toNat = key.val := by
      rw [UInt8.toNat_ofNat']
      omega
    have hup := h (UInt8.ofNat key.val)
    rw [isDown, hkey, Vector.getElem?_eq_getElem key.isLt] at hup
    simpa using hup

namespace Machine

/-- When each cause applies to the instruction at the program counter.  A call stack is full with
all the entries it has room for. -/
def Meets (m : Machine) : Cause → Prop
  | .emptyWord => m.fetch = 0
  | .unknownWord => Word.IsUnknown m.fetch
  | .routine => Word.IsRoutine m.fetch
  | .stackFull => Word.family m.fetch = 0x2 ∧ stackLimit ≤ m.stack.length
  | .stackEmpty => m.fetch = 0x00EE ∧ m.stack = []
  | .waiting =>
    Word.family m.fetch = 0xF ∧ (Word.nn m.fetch).toNat = 0x0A ∧ ∀ key, m.keys.isDown key = false

/-- What a cause comes to: the faults name the place, and some the word. -/
def stopFor (m : Machine) : Cause → Stop
  | .emptyWord => .fault (.emptyWord m.pc)
  | .unknownWord => .fault (.unknownWord m.fetch m.pc)
  | .routine => .fault (.routine m.fetch m.pc)
  | .stackFull => .fault (.stackFull m.pc)
  | .stackEmpty => .fault (.stackEmpty m.pc)
  | .waiting => .waiting

@[simp] theorem cause_stopFor (m : Machine) (c : Cause) : (m.stopFor c).cause = c := by
  cases c <;> rfl

/-- A fault is raised where the machine is, for the word there. -/
theorem place_of_stopFor {m : Machine} {c : Cause} {f : Fault} (h : .fault f = m.stopFor c) :
    f.pc = m.pc ∧ ∀ w, f.word? = some w → w = m.fetch := by
  cases c with
  | waiting => cases h
  | unknownWord | routine =>
    obtain rfl := Stop.fault.inj h
    exact ⟨rfl, fun w hw => (Option.some.inj hw).symm⟩
  | emptyWord | stackFull | stackEmpty =>
    obtain rfl := Stop.fault.inj h
    exact ⟨rfl, nofun⟩

/-! ## 2. Words -/

/-- The word at the program counter has the byte there in its upper half. -/
theorem toNat_fetch (m : Machine) :
    m.fetch.toNat
      = 256 * (m.memory.read m.pc.toNat).toNat + (m.memory.read (m.pc.toNat + 1)).toNat := by
  have hhigh := (m.memory.read m.pc.toNat).toNat_lt
  have hlow := (m.memory.read (m.pc.toNat + 1)).toNat_lt
  rw [fetch, UInt16.toNat_add, UInt16.toNat_mul, UInt8.toNat_toUInt16, UInt8.toNat_toUInt16]
  simp only [UInt16.toNat_ofNat]
  omega

/-! ## 3. Causes and obstacles -/

/-- An instruction that is refused meets a cause. -/
theorem meets_of_refusal {m : Machine} {i : Instruction} {s : Stop}
    (hdecode : decode m.fetch = .ok i) (h : m.refusal? i = some s) :
    ∃ c, m.Meets c ∧ s = m.stopFor c := by
  cases i with
  | routine target =>
    rw [refusal_routine] at h
    obtain rfl := Option.some.inj h
    obtain ⟨hroutine, -⟩ := decode_eq_routine_iff.mp hdecode
    refine ⟨.routine, hroutine, ?_⟩
    rw [ofNat_of_decode_routine hdecode]
    rfl
  | ret =>
    rw [refusal_ret] at h
    split at h
    · rename_i hempty
      obtain rfl := Option.some.inj h
      exact ⟨.stackEmpty, ⟨decode_eq_ret_iff.mp hdecode, hempty⟩, rfl⟩
    · cases h
  | call target =>
    rw [refusal_call] at h
    split at h
    · cases h
    · rename_i hfull
      obtain rfl := Option.some.inj h
      obtain ⟨hfamily, -⟩ := decode_eq_call_iff.mp hdecode
      exact ⟨.stackFull, ⟨hfamily, Nat.le_of_not_lt hfull⟩, rfl⟩
  | waitKey x =>
    rw [refusal_waitKey] at h
    split at h
    · rename_i hup
      obtain rfl := Option.some.inj h
      obtain ⟨hfamily, hnn, -⟩ := decode_eq_waitKey_iff.mp hdecode
      exact ⟨.waiting, ⟨hfamily, hnn, Keypad.lowest?_eq_none_iff.mp hup⟩, rfl⟩
    · cases h
  | _ => cases h

theorem meets_of_obstacle {m : Machine} {s : Stop} (h : m.obstacle? = some s) :
    ∃ c, m.Meets c ∧ s = m.stopFor c := by
  rw [obstacle?] at h
  cases hdecode : decode m.fetch with
  | error e =>
    rw [hdecode] at h
    obtain rfl := Option.some.inj h
    cases e with
    | empty => exact ⟨.emptyWord, decode_eq_empty_iff.mp hdecode, rfl⟩
    | unknown u =>
      obtain ⟨rfl, hunknown⟩ := decode_eq_unknown_iff.mp hdecode
      exact ⟨.unknownWord, hunknown, rfl⟩
  | ok i =>
    rw [hdecode] at h
    exact meets_of_refusal hdecode h

/-- A cause that applies stops the instruction. -/
theorem obstacle_of_meets {m : Machine} {c : Cause} (h : m.Meets c) :
    m.obstacle? = some (m.stopFor c) := by
  rw [obstacle?]
  cases c with
  | emptyWord =>
    rw [decode_eq_empty_iff.mpr h]
    rfl
  | unknownWord =>
    rw [decode_eq_unknown_iff.mpr ⟨rfl, h⟩]
    rfl
  | routine =>
    have hdecode := decode_eq_routine_iff.mpr ⟨h, rfl⟩
    simp only [hdecode, refusal_routine, ofNat_of_decode_routine hdecode]
    rfl
  | stackFull =>
    obtain ⟨hfamily, hfull⟩ := h
    rw [decode_eq_call_iff.mpr ⟨hfamily, rfl⟩]
    exact if_neg (Nat.not_lt_of_le hfull)
  | stackEmpty =>
    obtain ⟨hword, hempty⟩ := h
    rw [decode_eq_ret_iff.mpr hword]
    exact if_pos hempty
  | waiting =>
    obtain ⟨hfamily, hnn, hup⟩ := h
    rw [decode_eq_waitKey_iff.mpr ⟨hfamily, hnn, rfl⟩]
    exact if_pos (Keypad.lowest?_eq_none_iff.mpr hup)

/-- **What stops an instruction.** -/
theorem obstacle_eq_some_iff {m : Machine} {s : Stop} :
    m.obstacle? = some s ↔ ∃ c, m.Meets c ∧ s = m.stopFor c := by
  constructor
  · exact meets_of_obstacle
  · rintro ⟨c, hc, rfl⟩
    exact obstacle_of_meets hc

end Machine

namespace Emulator

variable {π : Type} [Platform π]

/-! ## 4. Ticks -/

/-- What it means that the outcome of the next tick is settled by the word, the stack and the
keys. -/
structure Classified (e : Emulator π) : Prop where
  /-- The word is that at the program counter, high byte first, -/
  word : e.machine.fetch.toNat = 256 * (e.machine.memory.read e.machine.pc.toNat).toNat
    + (e.machine.memory.read (e.machine.pc.toNat + 1)).toNat
  /-- with zeros past the end of memory. -/
  beyond : ∀ a, 0x0FFF < a → e.machine.memory.read a = 0
  /-- A tick is stopped for a cause exactly if the cause applies. -/
  stopped : ∀ c, (∃ s, e.tick.result = .error s ∧ s.cause = c) ↔ e.machine.Meets c
  /-- It takes effect in every other case. -/
  done : e.tick.result = .ok () ↔ ∀ c, ¬ e.machine.Meets c
  /-- A fault names the program counter, before the tick and after it, and the word. -/
  place : ∀ f, e.tick.result = .error (.fault f) →
    f.pc = e.machine.pc ∧ f.pc = e.tick.state.machine.pc ∧
      ∀ w, f.word? = some w → w = e.machine.fetch

theorem result_tick_eq_error_iff {e : Emulator π} {s : Stop} :
    e.tick.result = .error s ↔ e.machine.obstacle? = some s :=
  ⟨fun h => Machine.obstacle_of_result h, fun h => result_tick_of_obstacle h⟩

theorem result_tick_eq_ok_iff {e : Emulator π} :
    e.tick.result = .ok () ↔ e.machine.obstacle? = none := by
  have hresult : e.tick.result = _ := e.machine.result_step e.supply.1
  rw [hresult]
  cases e.machine.obstacle? <;> simp

/-- A fault leaves the program counter where it names it. -/
theorem pc_tick_of_fault {e : Emulator π} {f : Fault} (h : e.tick.result = .error (.fault f)) :
    e.tick.state.machine.pc = f.pc := by
  have hobstacle := result_tick_eq_error_iff.mp h
  obtain ⟨c, -, hstop⟩ := Machine.obstacle_eq_some_iff.mp hobstacle
  rw [state_tick_of_obstacle hobstacle]
  exact (Machine.place_of_stopFor hstop).1.symm

/-- **Every tick is classified**, in every state of the machine. -/
theorem result_tick_classified (e : Emulator π) : e.Classified := by
  have hstopped : ∀ c, (∃ s, e.tick.result = .error s ∧ s.cause = c) ↔ e.machine.Meets c := by
    intro c
    constructor
    · rintro ⟨s, hs, rfl⟩
      obtain ⟨c, hc, rfl⟩ := Machine.obstacle_eq_some_iff.mp (result_tick_eq_error_iff.mp hs)
      rwa [Machine.cause_stopFor]
    · intro hc
      have hobstacle := Machine.obstacle_eq_some_iff.mpr ⟨c, hc, rfl⟩
      exact ⟨_, result_tick_eq_error_iff.mpr hobstacle, Machine.cause_stopFor ..⟩
  refine ⟨e.machine.toNat_fetch, fun a ha => Memory.read_of_size_le ha, hstopped, ?_, ?_⟩
  · constructor
    · intro hok c hc
      obtain ⟨s, hs, -⟩ := (hstopped c).mpr hc
      rw [hok] at hs
      cases hs
    · intro hnone
      cases hresult : e.tick.result with
      | ok => rfl
      | error s => exact absurd ((hstopped s.cause).mp ⟨s, hresult, rfl⟩) (hnone s.cause)
  · intro f hf
    have hobstacle := result_tick_eq_error_iff.mp hf
    obtain ⟨c, -, hstop⟩ := Machine.obstacle_eq_some_iff.mp hobstacle
    obtain ⟨hpc, hword⟩ := Machine.place_of_stopFor hstop
    refine ⟨hpc, ?_, hword⟩
    rw [state_tick_of_obstacle hobstacle]
    exact hpc

end Emulator

end Chip8
