/-
# The program counter and the call stack

Nothing checks the program counter, and it stays in range all the same.  Past the end of memory
there is the zero word only, so an instruction that takes effect was fetched below the end; a jump
names an address below the end and may add a byte to it; and an address on the call stack is that of
a call that took effect.

* `Machine.InRange` holds these bounds together, since none of them is kept without the others;
  `InRange.step` keeps them for an instruction and `inRange_perform` for every operation of a host.
* Within the bounds no instruction wraps (`InRange.pc_of_execute`).
* A run that has left the memory stays where it is until the machine is reset (`ended`).
-/
import Chip8.Proofs.Machine.Control

namespace Chip8

namespace Machine

/-! ## 1. Past the end of memory -/

theorem fetch_of_past_end {m : Machine} (h : 0x1000 ≤ m.pc.toNat) : m.fetch = 0 := by
  rw [fetch, Memory.read_of_size_le h, Memory.read_of_size_le (Nat.le_add_right_of_le h)]
  rfl

theorem obstacle_of_past_end {m : Machine} (h : 0x1000 ≤ m.pc.toNat) :
    m.obstacle? = some (.fault (.emptyWord m.pc)) := by
  rw [obstacle?, fetch_of_past_end h, decode_zero]
  rfl

/-- An instruction was fetched below the end of memory. -/
theorem pc_lt_of_decode {m : Machine} {i : Instruction} (h : decode m.fetch = .ok i) :
    m.pc.toNat < 0x1000 := by
  rcases Nat.lt_or_ge m.pc.toNat 0x1000 with hbelow | hpast
  · exact hbelow
  · rw [fetch_of_past_end hpast, decode_zero] at h
    cases h

/-! ## 2. The bounds -/

/-- The bounds of the program counter and the call stack. -/
structure InRange (m : Machine) : Prop where
  /-- The furthest a jump reaches is the last address plus a byte. -/
  pc_le : m.pc.toNat ≤ 0x10FE
  depth : m.stack.length ≤ 16
  /-- Calls are made from addresses in memory. -/
  caller_le : ∀ a ∈ m.stack, a.toNat ≤ 0x0FFF

namespace InRange

variable {m m' : Machine} {i : Instruction}

theorem powerOn (d : Dialect) : (Machine.powerOn d).InRange where
  pc_le := by simp [Machine.powerOn, Machine.reset]
  depth := Nat.zero_le _
  caller_le := by simp [Machine.powerOn, Machine.reset]

/-- The bounds concern the program counter and the call stack only. -/
theorem of_same (h : m.InRange) (hpc : m'.pc = m.pc) (hstack : m'.stack = m.stack) :
    m'.InRange where
  pc_le := hpc ▸ h.pc_le
  depth := hstack ▸ h.depth
  caller_le := hstack ▸ h.caller_le

/-- The latest caller, or zero if there is none. -/
theorem latest_le (h : m.InRange) : (m.stack.headD 0).toNat ≤ 0x0FFF := by
  have hcaller := h.caller_le
  cases hstack : m.stack with
  | nil => simp
  | cons a rest => exact hcaller a (by simp [hstack])

theorem onward_le (h : m.InRange) (hpc : m.pc.toNat < 0x1000) (i : Instruction) :
    m.onward i ≤ 0x10FE := by
  have hstraight : m.pc.toNat + (if m.skips i then 4 else 2) ≤ 0x10FE := by split <;> omega
  cases i with
  | jump target | call target =>
    have htarget : target.val < 4096 := target.isLt
    exact Nat.le_trans (Nat.le_of_lt htarget) (by decide)
  | jumpPlus target =>
    have htarget := target.isLt
    have hoffset := (m.v.get .offset).toNat_lt
    rw [onward_jumpPlus]
    omega
  | ret =>
    have hlatest := h.latest_le
    rw [onward_ret]
    omega
  | _ => exact hstraight

/-- **Nothing wraps.**  Within the bounds the program counter after an instruction is what it would
be without a limit. -/
theorem toNat_onward (h : m.InRange) (hpc : m.pc.toNat < 0x1000) (i : Instruction) :
    (UInt16.ofNat (m.onward i)).toNat = m.onward i := by
  have hle := h.onward_le hpc i
  exact UInt16.toNat_ofNat_of_lt' (Nat.lt_of_le_of_lt hle (by decide))

theorem pc_of_execute {byte : UInt8} (h : m.InRange) (hdecode : decode m.fetch = .ok i)
    (hexec : m.execute byte i = .done m') : m'.pc.toNat = m.onward i := by
  cases hrefusal : m.refusal? i with
  | some s => simp [execute_of_refused byte hrefusal] at hexec
  | none =>
    obtain ⟨m₁, hexec₁, hpc, -⟩ := execute_of_accepted byte hrefusal
    obtain rfl : m₁ = m' := Outcome.done.inj (hexec₁.symm.trans hexec)
    rw [hpc]
    exact h.toNat_onward (pc_lt_of_decode hdecode) i

theorem length_callers_le (h : m.InRange) (hrefusal : m.refusal? i = none) :
    (m.callers i).length ≤ 16 := by
  have hdepth := h.depth
  cases i with
  | call target =>
    rw [refusal_call] at hrefusal
    split at hrefusal
    · rename_i hroom
      exact hroom
    · cases hrefusal
  | ret => exact Nat.le_trans (by simp [callers_ret]) hdepth
  | _ => exact hdepth

theorem caller_le_of_callers (h : m.InRange) (hpc : m.pc.toNat < 0x1000) :
    ∀ a ∈ m.callers i, a.toNat ≤ 0x0FFF := by
  have hcaller := h.caller_le
  cases i with
  | call target =>
    intro a ha
    rcases List.mem_cons.mp ha with rfl | ha
    · exact Nat.le_of_lt_succ hpc
    · exact hcaller a ha
  | ret => exact fun a ha => hcaller a (List.mem_of_mem_tail ha)
  | _ => exact hcaller

/-- **An instruction keeps the bounds**, whether it takes effect or stops. -/
theorem step (h : m.InRange) (byte : UInt8) : (m.step byte).machine.InRange := by
  cases hobstacle : m.obstacle? with
  | some s =>
    rw [step_of_obstacle byte hobstacle]
    exact h
  | none =>
    obtain ⟨i, m', hdecode, hrefusal, hstep, hpc, hstack⟩ := step_of_no_obstacle byte hobstacle
    have hbelow := pc_lt_of_decode hdecode
    rw [hstep]
    refine ⟨?_, ?_, ?_⟩
    · rw [Outcome.machine, hpc, h.toNat_onward hbelow i]
      exact h.onward_le hbelow i
    · rw [Outcome.machine, hstack]
      exact h.length_callers_le hrefusal
    · rw [Outcome.machine, hstack]
      exact h.caller_le_of_callers hbelow

end InRange

end Machine

/-! ## 3. Whatever the host does -/

namespace Emulator

variable {π : Type} [Platform π]

/-- **Every operation keeps the bounds.** -/
theorem inRange_perform (e : Emulator π) (op : Operation) (h : e.machine.InRange) :
    (e.perform op).state.machine.InRange := by
  cases op with
  | tick => exact h.step _
  | reset => exact (Machine.InRange.powerOn e.machine.dialect).of_same rfl rfl
  | countDown | setKey key down | load program | takeScreen => exact h.of_same rfl rfl

/-- Past the end of memory only a reset moves the program counter. -/
theorem pc_perform_of_past_end {e : Emulator π} {op : Operation}
    (h : 0x1000 ≤ e.machine.pc.toNat) (hop : op ≠ .reset) :
    (e.perform op).state.machine.pc = e.machine.pc := by
  cases op with
  | tick =>
    show e.tick.state.machine.pc = e.machine.pc
    rw [state_tick_of_obstacle (Machine.obstacle_of_past_end h)]
  | reset => exact absurd rfl hop
  | countDown | setKey key down | load program | takeScreen => rfl

/-- **A run that has left the memory** stays where it is, and every tick reports the empty word
there, until the machine is reset. -/
theorem ended {e : Emulator π} (h : 0x1000 ≤ e.machine.pc.toNat) {ops : List Operation}
    (hops : .reset ∉ ops) :
    (e.performAll ops).state.machine.pc = e.machine.pc ∧
      ∀ r, .ticked r ∈ (e.performAll ops).result →
        r = .error (.fault (.emptyWord e.machine.pc)) := by
  let P (f : Emulator π) : Prop := f.machine.pc = e.machine.pc
  have hkeep : ∀ f op, op ∈ ops → P f → P (f.perform op).state := by
    intro f op hop hf
    have hpast : 0x1000 ≤ f.machine.pc.toNat := hf ▸ h
    exact (pc_perform_of_past_end hpast fun hreset => hops (hreset ▸ hop)).trans hf
  refine ⟨Step.iterate_invariant hkeep rfl, ticked_of_performAll (P := P) hkeep ?_ rfl⟩
  intro f hf
  have hpast : 0x1000 ≤ f.machine.pc.toNat := hf ▸ h
  rw [← hf]
  exact result_tick_of_obstacle (Machine.obstacle_of_past_end hpast)

/-- What it means that the program counter and the call stack are under control. -/
structure Contained (e : Emulator π) : Prop where
  inRange : e.machine.InRange
  /-- The next instruction does not wrap, whatever the random byte. -/
  unwrapped : ∀ byte i m', decode e.machine.fetch = .ok i →
    e.machine.execute byte i = .done m' → m'.pc.toNat = e.machine.onward i
  /-- The end of memory does not lead back to its start. -/
  ended : 0x1000 ≤ e.machine.pc.toNat → ∀ ops : List Operation, .reset ∉ ops →
    (e.performAll ops).state.machine.pc = e.machine.pc ∧
      ∀ r, .ticked r ∈ (e.performAll ops).result →
        r = .error (.fault (.emptyWord e.machine.pc))

/-- **Every reachable state is contained**, with any program, any random bytes and any order of
operations. -/
theorem contained_of_reachable {e : Emulator π} (h : e.Reachable) : e.Contained := by
  have hrange : e.machine.InRange := h.invariant Machine.InRange.powerOn inRange_perform
  refine ⟨hrange, ?_, ?_⟩
  · intro byte i m' hdecode hexec
    exact hrange.pc_of_execute hdecode hexec
  · intro hpast ops hops
    exact Emulator.ended hpast hops

/-- A program that jumps as far as one can: it sets V0 to `0xFF` and jumps to `0xFFF` plus V0. -/
theorem contained_of_reachable_furthest_jump :
    let e := ((scripted []).performAll [.load [0x60, 0xFF, 0xBF, 0xFF], .tick, .tick]).state
    e.Reachable ∧ e.machine.pc = 0x10FE ∧ e.Contained :=
  ⟨(Reachable.on _ _).performAll _, by decide +kernel,
    contained_of_reachable ((Reachable.on _ _).performAll _)⟩

end Emulator

end Chip8
