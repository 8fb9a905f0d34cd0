/-
# Where an instruction leads

An instruction either takes effect or stops, and which of the two depends on the machine before it
alone.  `Machine.refusal?` says when it stops and why; where it goes on, `Machine.onward` and
`Machine.callers` give the program counter and the call stack that it leaves.

* `execute_of_refused` and `execute_of_accepted` compare this with `Machine.execute`: an instruction
  that stops has not changed the machine, whatever it had begun to do.
* `Machine.obstacle?` is the same for the instruction at the program counter.  A fault depends on
  the memory, the program counter and the call stack only (`obstacle_congr`).
* `state_tick_of_obstacle` and its neighbours say what a tick does that meets an obstacle: it tells
  the platform of the tone.
-/
import Chip8.Proofs.Runs

namespace Chip8

namespace Machine

/-! ## 1. The parts that control the run -/

theorem pc_next (m : Machine) : m.next.pc = UInt16.ofNat (m.pc.toNat + 2) := by
  rw [UInt16.ofNat_add, UInt16.ofNat_toNat]
  rfl

@[simp] theorem stack_next (m : Machine) : m.next.stack = m.stack := rfl

theorem pc_skipIf (m : Machine) (skip : Bool) :
    (m.skipIf skip).pc = UInt16.ofNat (m.pc.toNat + if skip then 4 else 2) := by
  cases skip with
  | false => exact pc_next m
  | true =>
    have htwice : m.pc + 2 + 2 = m.pc + 4 := UInt16.add_assoc ..
    rw [if_pos rfl, UInt16.ofNat_add, UInt16.ofNat_toNat]
    exact htwice

@[simp] theorem stack_skipIf (m : Machine) (skip : Bool) : (m.skipIf skip).stack = m.stack := by
  cases skip <;> rfl

@[simp] theorem pc_report (m : Machine) (flag : Option UInt8) : (m.report flag).pc = m.pc := by
  cases flag <;> rfl

@[simp] theorem stack_report (m : Machine) (flag : Option UInt8) :
    (m.report flag).stack = m.stack := by
  cases flag <;> rfl

/-! ## 2. What an instruction does to them -/

/-- Why an instruction cannot take effect, if it cannot. -/
def refusal? (m : Machine) : Instruction → Option Stop
  | .routine target => some (.fault (.routine (UInt16.ofNat target.val) m.pc))
  | .ret => if m.stack = [] then some (.fault (.stackEmpty m.pc)) else none
  | .call _ => if m.stack.length < stackLimit then none else some (.fault (.stackFull m.pc))
  | .waitKey _ => if m.keys.lowest? = none then some .waiting else none
  | _ => none

theorem refusal_routine (m : Machine) (target : Address) :
    m.refusal? (.routine target) = some (.fault (.routine (UInt16.ofNat target.val) m.pc)) := rfl

theorem refusal_ret (m : Machine) :
    m.refusal? .ret = if m.stack = [] then some (.fault (.stackEmpty m.pc)) else none := rfl

theorem refusal_call (m : Machine) (target : Address) :
    m.refusal? (.call target)
      = if m.stack.length < stackLimit then none else some (.fault (.stackFull m.pc)) := rfl

theorem refusal_waitKey (m : Machine) (x : Register) :
    m.refusal? (.waitKey x) = if m.keys.lowest? = none then some .waiting else none := rfl

/-- Whether an instruction skips the next one. -/
def skips (m : Machine) : Instruction → Bool
  | .skipEqual x b => m.v.get x = b
  | .skipUnequal x b => m.v.get x ≠ b
  | .skipSame x y => m.v.get x = m.v.get y
  | .skipDifferent x y => m.v.get x ≠ m.v.get y
  | .skipDown x => m.keys.isDown (m.v.get x)
  | .skipUp x => !m.keys.isDown (m.v.get x)
  | _ => false

/-- The program counter after an instruction, with nothing cut off. -/
def onward (m : Machine) : Instruction → Nat
  | .jump target | .call target => target.val
  | .jumpPlus target => target.val + (m.v.get .offset).toNat
  | .ret => (m.stack.headD 0).toNat + 2
  | i => m.pc.toNat + if m.skips i then 4 else 2

theorem onward_ret (m : Machine) : m.onward .ret = (m.stack.headD 0).toNat + 2 := rfl

theorem onward_jumpPlus (m : Machine) (target : Address) :
    m.onward (.jumpPlus target) = target.val + (m.v.get .offset).toNat := rfl

/-- The call stack after an instruction. -/
def callers (m : Machine) : Instruction → List UInt16
  | .call _ => m.pc :: m.stack
  | .ret => m.stack.tail
  | _ => m.stack

theorem callers_ret (m : Machine) : m.callers .ret = m.stack.tail := rfl

/-- **An instruction that stops leaves the machine as it was.** -/
theorem execute_of_refused {m : Machine} {i : Instruction} {s : Stop} (byte : UInt8)
    (h : m.refusal? i = some s) : m.execute byte i = .stopped s m := by
  cases i with
  | routine target =>
    obtain rfl := Option.some.inj h
    rfl
  | ret =>
    rw [refusal_ret] at h
    split at h
    · rename_i hempty
      obtain rfl := Option.some.inj h
      -- the tail of an empty stack is the stack again
      obtain ⟨⟩ := m
      obtain rfl := hempty
      rfl
    · cases h
  | call target =>
    rw [refusal_call] at h
    split at h
    · cases h
    · rename_i hfull
      obtain rfl := Option.some.inj h
      simp only [execute, push, if_neg hfull]
  | waitKey x =>
    rw [refusal_waitKey] at h
    split at h
    · rename_i hnone
      obtain rfl := Option.some.inj h
      simp only [execute, hnone]
    · cases h
  | _ => cases h

/-- **An instruction that goes on** leads where `onward` and `callers` say. -/
theorem execute_of_accepted {m : Machine} {i : Instruction} (byte : UInt8)
    (h : m.refusal? i = none) :
    ∃ m', m.execute byte i = .done m' ∧ m'.pc = UInt16.ofNat (m.onward i) ∧
      m'.stack = m.callers i := by
  cases i with
  | routine target => cases h
  | ret =>
    rw [refusal_ret] at h
    cases hstack : m.stack with
    | nil => simp [hstack] at h
    | cons caller rest =>
      refine ⟨{ m with pc := caller, stack := rest }.next, ?_, ?_, ?_⟩
      · simp only [execute, pop, hstack, List.head?_cons, List.tail_cons]
      · rw [pc_next, onward_ret, hstack]
        rfl
      · rw [stack_next, callers_ret, hstack]
        rfl
  | call target =>
    rw [refusal_call] at h
    split at h
    · rename_i hroom
      refine ⟨{ m with pc := UInt16.ofNat target.val, stack := m.pc :: m.stack }, ?_, rfl, rfl⟩
      simp only [execute, push, if_pos hroom]
    · cases h
  | waitKey x =>
    rw [refusal_waitKey] at h
    cases hkey : m.keys.lowest? with
    | none => simp [hkey] at h
    | some key =>
      refine ⟨(m.put x (UInt8.ofNat key.val)).next, ?_, pc_next _, rfl⟩
      simp only [execute, hkey]
  | jump target => exact ⟨_, rfl, rfl, rfl⟩
  | jumpPlus target =>
    refine ⟨_, rfl, ?_, rfl⟩
    rw [onward_jumpPlus, UInt16.ofNat_add, UInt16.ofNat_uInt8ToNat]
  | skipEqual x b => exact ⟨_, rfl, pc_skipIf .., stack_skipIf ..⟩
  | skipUnequal x b => exact ⟨_, rfl, pc_skipIf .., stack_skipIf ..⟩
  | skipSame x y => exact ⟨_, rfl, pc_skipIf .., stack_skipIf ..⟩
  | skipDifferent x y => exact ⟨_, rfl, pc_skipIf .., stack_skipIf ..⟩
  | skipDown x => exact ⟨_, rfl, pc_skipIf .., stack_skipIf ..⟩
  | skipUp x => exact ⟨_, rfl, pc_skipIf .., stack_skipIf ..⟩
  | combine op x y =>
    refine ⟨_, rfl, ?_, ?_⟩
    · rw [pc_next]
      simp only [put, pc_report]
      rfl
    · simp only [put, stack_next, stack_report]
      rfl
  | _ => exact ⟨_, rfl, pc_next _, rfl⟩

/-! ## 3. The instruction at the program counter -/

/-- Why the instruction at the program counter cannot take effect, if it cannot. -/
def obstacle? (m : Machine) : Option Stop :=
  match decode m.fetch with
  | .error e => some (.fault (e.at m.pc))
  | .ok i => m.refusal? i

theorem step_of_obstacle {m : Machine} {s : Stop} (byte : UInt8) (h : m.obstacle? = some s) :
    m.step byte = .stopped s m := by
  rw [obstacle?] at h
  cases hdecode : decode m.fetch with
  | error e =>
    simp only [hdecode, Option.some.injEq] at h
    simp only [step, hdecode, h]
  | ok i =>
    simp only [hdecode] at h
    simp only [step, hdecode]
    exact execute_of_refused byte h

theorem step_of_no_obstacle {m : Machine} (byte : UInt8) (h : m.obstacle? = none) :
    ∃ i m', decode m.fetch = .ok i ∧ m.refusal? i = none ∧ m.step byte = .done m' ∧
      m'.pc = UInt16.ofNat (m.onward i) ∧ m'.stack = m.callers i := by
  rw [obstacle?] at h
  cases hdecode : decode m.fetch with
  | error e => simp [hdecode] at h
  | ok i =>
    simp only [hdecode] at h
    obtain ⟨m', hexec, hpc, hstack⟩ := execute_of_accepted byte h
    exact ⟨i, m', rfl, h, by simp only [step, hdecode, hexec], hpc, hstack⟩

/-- What becomes of the instruction at the program counter is settled before it runs. -/
theorem result_step (m : Machine) (byte : UInt8) :
    (m.step byte).result = (match m.obstacle? with | some s => .error s | none => .ok ()) := by
  cases h : m.obstacle? with
  | some s => rw [step_of_obstacle byte h]; rfl
  | none =>
    obtain ⟨-, m', -, -, hstep, -⟩ := step_of_no_obstacle byte h
    rw [hstep]
    rfl

theorem obstacle_of_result {m : Machine} {byte : UInt8} {s : Stop}
    (h : (m.step byte).result = .error s) : m.obstacle? = some s := by
  rw [result_step] at h
  cases hobstacle : m.obstacle? with
  | none => simp [hobstacle] at h
  | some t => simpa [hobstacle] using h

/-- **What a fault depends on.** -/
theorem obstacle_congr {m m' : Machine} {f : Fault} (hmemory : m'.memory = m.memory)
    (hpc : m'.pc = m.pc) (hstack : m'.stack = m.stack) (h : m.obstacle? = some (.fault f)) :
    m'.obstacle? = some (.fault f) := by
  have hfetch : m'.fetch = m.fetch := by rw [fetch, fetch, hmemory, hpc]
  rw [obstacle?] at h ⊢
  rw [hfetch, hpc]
  cases hdecode : decode m.fetch with
  | error e => simpa [hdecode] using h
  | ok i =>
    simp only [hdecode] at h ⊢
    cases i with
    | waitKey x =>
      -- waiting is not a fault
      rw [refusal_waitKey] at h
      split at h <;> simp at h
    | routine target => simpa only [refusal_routine, hpc] using h
    | ret => simpa only [refusal_ret, hpc, hstack] using h
    | call target => simpa only [refusal_call, hpc, hstack] using h
    | _ => cases h

/-- An instruction that stops draws no random byte. -/
theorem needsRandom_of_obstacle {m : Machine} {s : Stop} (h : m.obstacle? = some s) :
    m.needsRandom = false := by
  rw [obstacle?] at h
  cases hdecode : decode m.fetch with
  | error e =>
    rw [needsRandom, instruction?, hdecode]
    rfl
  | ok i =>
    rw [needsRandom, instruction?, hdecode]
    simp only [hdecode] at h
    cases i with
    | random x mask => cases h
    | _ => rfl

end Machine

namespace Emulator

variable {π : Type} [Platform π]

/-! ## 4. A tick that stops -/

section Stopped

variable {e : Emulator π} {s : Stop} (h : e.machine.obstacle? = some s)

include h

/-- No byte is drawn for it. -/
theorem supply_of_obstacle : e.supply = (0, e.platform) := by
  simp [supply, Machine.needsRandom_of_obstacle h]

theorem result_tick_of_obstacle : e.tick.result = .error s := by
  show (e.machine.step e.supply.1).result = .error s
  rw [Machine.step_of_obstacle _ h]
  rfl

/-- All that a tick that stops changes is what the platform was told. -/
theorem state_tick_of_obstacle :
    e.tick.state = ⟨e.machine, (Platform.tell e.platform e.machine.sound.isActive).1⟩ := by
  simp only [tick, supply_of_obstacle h, Machine.step_of_obstacle _ h, Outcome.machine]

theorem calls_tick_of_obstacle :
    Event.calls e.tick.events = [.tone e.machine.sound.isActive] := by
  simp [tick, Machine.needsRandom_of_obstacle h, Machine.step_of_obstacle _ h, Outcome.machine]

end Stopped

end Emulator

end Chip8
