/-
# Calls and returns

A call puts its own address on the call stack, and a return takes it off again and goes on right
after it.  Here this is followed over a whole run: whatever happens between a call and its return,
nested calls, waiting, faults, keys and a program loaded over the running one, the callers below are
left alone and the return finds the address of its call.

* `stack_perform_cases`: the three things an operation can do to the call stack.
* `StaysAbove`: the call stack stays higher than it was before the call, all along a run.
* `callers_suffix` keeps the address of the call and those below it for as long as that holds;
  `return_of_length_le` says what the operation does with which it ends.
-/
import Mathlib.Data.List.Induction
import Chip8.Proofs.Machine.Diagnosis
import Chip8.Proofs.Machine.ProgramCounter

namespace Chip8

namespace Emulator

variable {π : Type} [Platform π]

/-! ## 1. One operation -/

/-- What an operation other than a reset can do to the call stack: nothing, a call, or a return. -/
inductive StackChange (e : Emulator π) (op : Operation) : Prop
  /-- The call stack stays as it is. -/
  | kept (stack : (e.perform op).state.machine.stack = e.machine.stack)
  /-- The program counter is put on it. -/
  | called (stack : (e.perform op).state.machine.stack = e.machine.pc :: e.machine.stack)
  /-- The word `00EE` takes an address off it and goes on after that. -/
  | returned (caller : UInt16) (tick : op = .tick) (word : e.machine.fetch = 0x00EE)
      (result : e.tick.result = .ok ())
      (stack : e.machine.stack = caller :: e.tick.state.machine.stack)
      (pc : e.tick.state.machine.pc = UInt16.ofNat (caller.toNat + 2))

theorem stackChange_tick (e : Emulator π) : e.StackChange .tick := by
  cases hobstacle : e.machine.obstacle? with
  | some s =>
    refine .kept ?_
    show e.tick.state.machine.stack = e.machine.stack
    rw [state_tick_of_obstacle hobstacle]
  | none =>
    obtain ⟨i, m', hdecode, hrefusal, hstep, hpc, hstack⟩ :=
      Machine.step_of_no_obstacle e.supply.1 hobstacle
    have hmachine : e.tick.state.machine = m' := congrArg Outcome.machine hstep
    have hresult : e.tick.result = .ok () := congrArg Outcome.result hstep
    cases i with
    | call target =>
      refine .called ?_
      show e.tick.state.machine.stack = e.machine.pc :: e.machine.stack
      rw [hmachine]
      exact hstack
    | ret =>
      cases hcallers : e.machine.stack with
      | nil =>
        rw [Machine.refusal_ret, if_pos hcallers] at hrefusal
        cases hrefusal
      | cons caller rest =>
        refine .returned caller rfl (decode_eq_ret_iff.mp hdecode) hresult ?_ ?_
        · rw [hmachine, hstack, Machine.callers_ret, hcallers]
          rfl
        · rw [hmachine, hpc, Machine.onward_ret, hcallers]
          rfl
    | _ =>
      refine .kept ?_
      show e.tick.state.machine.stack = e.machine.stack
      rw [hmachine]
      exact hstack

theorem stackChange {e : Emulator π} {op : Operation} (hop : op ≠ .reset) :
    e.StackChange op := by
  cases op with
  | tick => exact e.stackChange_tick
  | reset => exact absurd rfl hop
  | countDown | setKey key down | load program | takeScreen => exact .kept rfl

/-! ## 2. Between a call and its return -/

section Callers

variable {e : Emulator π} {op : Operation} {p : UInt16} {s : List UInt16}
  (hop : op ≠ .reset) (h : p :: s <:+ e.machine.stack)

include hop h

/-- **An operation leaves the callers alone**, as long as the call stack stays higher than they
are. -/
theorem callers_suffix (hheight : s.length < (e.perform op).state.machine.stack.length) :
    p :: s <:+ (e.perform op).state.machine.stack := by
  have hchange : e.StackChange op := stackChange hop
  cases hchange with
  | kept hstack =>
    rw [hstack]
    exact h
  | called hstack =>
    rw [hstack]
    exact h.trans (List.suffix_cons _ _)
  | returned caller hop' hword hresult hstack hpc =>
    subst hop'
    rw [hstack] at h
    rcases List.suffix_cons_iff.mp h with heq | hsuffix
    · -- this would be the return that ends it
      obtain ⟨-, rfl⟩ := List.cons.inj heq
      exact absurd hheight (Nat.lt_irrefl _)
    · exact hsuffix

/-- **The operation that takes the call off the stack** is a return, and goes on after the call. -/
theorem return_of_length_le (hheight : (e.perform op).state.machine.stack.length ≤ s.length) :
    op = .tick ∧ e.machine.fetch = 0x00EE ∧ e.tick.result = .ok () ∧
      e.tick.state.machine.stack = s ∧
      e.tick.state.machine.pc = UInt16.ofNat (p.toNat + 2) := by
  have hlength := h.length_le
  rw [List.length_cons] at hlength
  have hchange : e.StackChange op := stackChange hop
  cases hchange with
  | kept hstack =>
    rw [hstack] at hheight
    omega
  | called hstack =>
    rw [hstack, List.length_cons] at hheight
    omega
  | returned caller hop' hword hresult hstack hpc =>
    subst hop'
    rw [hstack] at h
    rcases List.suffix_cons_iff.mp h with heq | hsuffix
    · obtain ⟨rfl, rfl⟩ := List.cons.inj heq
      exact ⟨rfl, hword, hresult, rfl, hpc⟩
    · have hlonger : (p :: s).length ≤ e.tick.state.machine.stack.length := hsuffix.length_le
      have hshort : e.tick.state.machine.stack.length ≤ s.length := hheight
      rw [List.length_cons] at hlonger
      omega

end Callers

/-! ## 3. Runs -/

/-- The call stack is higher than `height` at the start of a run and after each of its
operations. -/
def StaysAbove (e : Emulator π) (height : Nat) (ops : List Operation) : Prop :=
  ∀ past, past <+: ops → height < (e.performAll past).state.machine.stack.length

theorem StaysAbove.concat {e : Emulator π} {height : Nat} {ops : List Operation} {op : Operation}
    (h : e.StaysAbove height (ops ++ [op])) :
    e.StaysAbove height ops ∧
      height < ((e.performAll ops).state.perform op).state.machine.stack.length := by
  refine ⟨?_, ?_⟩
  · intro past hpast
    exact h past (hpast.trans (List.prefix_append ops [op]))
  · have hlast := h (ops ++ [op]) (List.prefix_refl _)
    rw [state_performAll_concat] at hlast
    exact hlast

/-- **A run leaves the callers alone** as long as it stays above them. -/
theorem callers_suffix_performAll {e : Emulator π} {p : UInt16} {s : List UInt16}
    (h : p :: s <:+ e.machine.stack) {ops : List Operation} (hops : .reset ∉ ops)
    (habove : e.StaysAbove s.length ops) :
    p :: s <:+ (e.performAll ops).state.machine.stack := by
  induction ops using List.reverseRecOn with
  | nil => exact h
  | append_singleton ops op ih =>
    rw [List.mem_append, not_or] at hops
    obtain ⟨hpast, hop⟩ := hops
    obtain ⟨habove, hheight⟩ := habove.concat
    rw [state_performAll_concat]
    refine callers_suffix ?_ (ih hpast habove) hheight
    rintro rfl
    exact hop List.mem_cons_self

/-- What it means that the call which is the next tick is honoured, whatever the host does without
resetting the machine. -/
structure Honoured (e : Emulator π) : Prop where
  /-- As long as the call stack stays higher than before the call, the callers of before stand at
  its bottom and the address of the call stands on them. -/
  kept : ∀ ops : List Operation, .reset ∉ ops →
    e.tick.state.StaysAbove e.machine.stack.length ops →
    e.machine.pc :: e.machine.stack <:+ (e.tick.state.performAll ops).state.machine.stack
  /-- The first operation after which it does not is a return that took effect: the call stack is
  as it was, and the program counter is past the call, with nothing cut off. -/
  returned : ∀ (ops : List Operation) (op : Operation), .reset ∉ ops → op ≠ .reset →
    e.tick.state.StaysAbove e.machine.stack.length ops →
    let e' := (e.tick.state.performAll ops).state
    (e'.perform op).state.machine.stack.length ≤ e.machine.stack.length →
    op = .tick ∧ e'.machine.fetch = 0x00EE ∧ e'.tick.result = .ok () ∧
      e'.tick.state.machine.stack = e.machine.stack ∧
      e'.tick.state.machine.pc.toNat = e.machine.pc.toNat + 2

/-- The call stack after a call that took effect, and where the call was. -/
theorem stack_tick_of_call {e : Emulator π} (hword : Word.family e.machine.fetch = 0x2)
    (hresult : e.tick.result = .ok ()) :
    e.tick.state.machine.stack = e.machine.pc :: e.machine.stack ∧
      e.machine.pc.toNat < 0x1000 := by
  have hdecode := decode_eq_call_iff.mpr ⟨hword, rfl⟩
  refine ⟨?_, Machine.pc_lt_of_decode hdecode⟩
  obtain ⟨i, m', hdecode', -, hstep, -, hstack⟩ :=
    Machine.step_of_no_obstacle e.supply.1 (result_tick_eq_ok_iff.mp hresult)
  obtain rfl : i = .call (Word.nnn e.machine.fetch) :=
    Except.ok.inj (hdecode'.symm.trans hdecode)
  have hmachine : e.tick.state.machine = m' := congrArg Outcome.machine hstep
  rw [hmachine]
  exact hstack

/-- **Every call that takes effect is honoured.** -/
theorem honoured_of_call {e : Emulator π} (hword : Word.family e.machine.fetch = 0x2)
    (hresult : e.tick.result = .ok ()) : e.Honoured := by
  obtain ⟨hstack, hpc⟩ := stack_tick_of_call hword hresult
  have hstart : e.machine.pc :: e.machine.stack <:+ e.tick.state.machine.stack :=
    hstack ▸ List.suffix_refl _
  refine ⟨fun ops hops habove => callers_suffix_performAll hstart hops habove, ?_⟩
  intro ops op hops hop habove e' hheight
  have hcallers : e.machine.pc :: e.machine.stack <:+ e'.machine.stack :=
    callers_suffix_performAll hstart hops habove
  obtain ⟨rfl, hret, hdone, hback, hnext⟩ := return_of_length_le hop hcallers hheight
  refine ⟨rfl, hret, hdone, hback, ?_⟩
  rw [hnext]
  exact UInt16.toNat_ofNat_of_lt' (Nat.lt_trans (Nat.add_lt_add_right hpc 2) (by decide))

/-- A subroutine that calls another one; both return. -/
theorem honoured_of_call_nested :
    let e := ((scripted []).performAll
      [.load [0x22, 0x04, 0x00, 0x00, 0x22, 0x08, 0x00, 0xEE, 0x00, 0xEE]]).state
    Word.family e.machine.fetch = 0x2 ∧ e.tick.result = .ok () ∧ e.Honoured ∧
      (e.performAll [.tick, .tick, .tick, .tick]).state.machine.pc = 0x202 := by
  intro e
  obtain ⟨hword, hfree, hback⟩ : Word.family e.machine.fetch = 0x2 ∧
      e.machine.obstacle? = none ∧
      (e.performAll [.tick, .tick, .tick, .tick]).state.machine.pc = 0x202 := by
    decide +kernel
  have hresult : e.tick.result = .ok () := result_tick_eq_ok_iff.mpr hfree
  exact ⟨hword, hresult, honoured_of_call hword hresult, hback⟩

end Emulator

end Chip8
