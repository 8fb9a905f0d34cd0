/-
# What a program learns of its platform

A program is given one thing by its platform, the random bytes that `CXNN` draws, and of these it
sees only the bits under the mask `NN`.  So one and the same machine does the same on two platforms,
however different they are, for as long as the bytes they draw agree under the masks.

* `step_congr`: an instruction looks at the random byte through its mask.
* `alike_perform`: an operation on the same machine answers the same on both platforms, leaves the
  same machine and calls both alike; `alike_performAll` is that for whole runs.
* `count_random_perform`: a random byte is drawn once for each `CXNN`, and at no other time.
-/
import Chip8.Proofs.Machine.Timers

namespace Chip8

/-! ## 1. One instruction -/

namespace Machine

/-- The mask through which the instruction at the program counter looks at a random byte: the `NN`
of `CXNN`. -/
def mask? (m : Machine) : Option UInt8 :=
  if Word.family m.fetch = 0xC then some (Word.nn m.fetch) else none

theorem mask?_of_decode {m : Machine} {x : Register} {mask : UInt8}
    (h : decode m.fetch = .ok (.random x mask)) : m.mask? = some mask := by
  obtain ⟨hfamily, -, rfl⟩ := decode_eq_random_iff.mp h
  exact if_pos hfamily

/-- The instructions that draw a random byte are those with a mask. -/
theorem needsRandom_eq (m : Machine) : m.needsRandom = m.mask?.isSome := by
  rw [needsRandom, instruction?, mask?]
  by_cases hfamily : Word.family m.fetch = 0xC
  · rw [if_pos hfamily, decode_eq_random_iff.mpr ⟨hfamily, rfl, rfl⟩]
    rfl
  · rw [if_neg hfamily]
    cases hdecode : decode m.fetch with
    | error e => rfl
    | ok i =>
      cases i with
      | random x mask => exact absurd (decode_eq_random_iff.mp hdecode).1 hfamily
      | _ => rfl

/-- **An instruction sees of the random byte what its mask lets through.** -/
theorem step_congr {m : Machine} {b b' : UInt8} (h : ∀ mask ∈ m.mask?, b &&& mask = b' &&& mask) :
    m.step b = m.step b' := by
  cases hdecode : decode m.fetch with
  | error e => simp only [step, hdecode]
  | ok i =>
    simp only [step, hdecode]
    cases i with
    | random x mask => rw [execute, execute, h mask (mask?_of_decode hdecode)]
    | _ => rfl

end Machine

namespace Emulator

variable {π ρ : Type} [Platform π] [Platform ρ]

/-! ## 2. One operation on two platforms -/

/-- The byte that the platform draws next. -/
def nextByte (e : Emulator π) : UInt8 := (Platform.draw e.platform).1

/-- What it means that two outcomes, on whatever platforms, are the same apart from the platform. -/
structure Alike {α : Type} (s : Step (Emulator π) α) (t : Step (Emulator ρ) α) : Prop where
  /-- The answers are the same, -/
  result : s.result = t.result
  /-- the machines are the same afterwards, -/
  machine : s.state.machine = t.state.machine
  /-- and the platforms were called alike. -/
  calls : Event.calls s.events = Event.calls t.events

/-- Only a tick calls the platform. -/
theorem calls_perform_of_ne_tick (e : Emulator π) {op : Operation} (hop : op ≠ .tick) :
    Event.calls (e.perform op).events = [] := by
  cases op with
  | tick => exact absurd rfl hop
  | takeScreen => rfl
  | countDown | setKey key down | load program | reset => exact Event.calls_notices _

theorem supply_of_mask {e : Emulator π} {mask : UInt8} (h : mask ∈ e.machine.mask?) :
    e.supply.1 = e.nextByte := by
  have hneeds : e.machine.needsRandom = true := by
    rw [Machine.needsRandom_eq, Option.mem_def.mp h]
    rfl
  rw [supply, if_pos hneeds, nextByte]

section Lockstep

variable {e : Emulator π} {f : Emulator ρ} (h : e.machine = f.machine)

include h

theorem alike_tick
    (hbyte : ∀ mask ∈ e.machine.mask?, e.nextByte &&& mask = f.nextByte &&& mask) :
    Alike e.tick f.tick := by
  have hstep : e.machine.step e.supply.1 = f.machine.step f.supply.1 := by
    rw [← h]
    refine Machine.step_congr fun mask hmask => ?_
    rw [supply_of_mask hmask, supply_of_mask (h ▸ hmask), hbyte mask hmask]
  have hmachine : e.tick.state.machine = f.tick.state.machine := congrArg Outcome.machine hstep
  refine ⟨congrArg Outcome.result hstep, hmachine, ?_⟩
  rw [calls_tick, calls_tick, hmachine, h]

/-- **One operation on the same machine** does the same on both platforms, if the bytes that it may
draw agree under the mask. -/
theorem alike_perform {op : Operation} (hbyte : op = .tick → ∀ mask ∈ e.machine.mask?,
      e.nextByte &&& mask = f.nextByte &&& mask) :
    Alike (e.perform op) (f.perform op) := by
  by_cases hop : op = .tick
  · subst hop
    obtain ⟨hresult, hmachine, hcalls⟩ := alike_tick h (hbyte rfl)
    exact ⟨congrArg Answer.ticked hresult, hmachine, hcalls⟩
  · have hcalls := (calls_perform_of_ne_tick e hop).trans (calls_perform_of_ne_tick f hop).symm
    cases op with
    | tick => exact absurd rfl hop
    | countDown => exact ⟨rfl, congrArg Machine.countDown h, hcalls⟩
    | setKey key down => exact ⟨rfl, congrArg (Machine.setKey · key down) h, hcalls⟩
    | load program => exact ⟨rfl, congrArg (Machine.load · program) h, hcalls⟩
    | reset => exact ⟨rfl, congrArg Machine.reset h, hcalls⟩
    | takeScreen =>
      refine ⟨?_, congrArg (fun m => m.takeScreen.2) h, hcalls⟩
      exact congrArg (fun m => Answer.taken m.takeScreen.1) h

end Lockstep

/-! ## 3. Runs on two platforms -/

/-- The mask of the `CXNN` that was executed, if one was. -/
def Moment.mask? (x : Moment π) : Option UInt8 :=
  if x.input = .tick then x.state.machine.mask? else none

/-- Whether two emulators draw alike in a run: whenever a `CXNN` is executed, the two bytes agree
under the mask `NN`. -/
def DrawAlike (e : Emulator π) (f : Emulator ρ) (ops : List Operation) : Prop :=
  ∀ p ∈ (e.history ops).zip (f.history ops), ∀ mask ∈ p.1.mask?,
    p.1.state.nextByte &&& mask = p.2.state.nextByte &&& mask

instance (e : Emulator π) (f : Emulator ρ) (ops : List Operation) : Decidable (DrawAlike e f ops) :=
  inferInstanceAs (Decidable (∀ p ∈ (e.history ops).zip (f.history ops), ∀ mask ∈ p.1.mask?, _))

theorem drawAlike_cons {e : Emulator π} {f : Emulator ρ} {op : Operation} {ops : List Operation} :
    DrawAlike e f (op :: ops) ↔
      (∀ mask ∈ Moment.mask? ⟨e, op⟩, e.nextByte &&& mask = f.nextByte &&& mask) ∧
        DrawAlike (e.perform op).state (f.perform op).state ops :=
  List.forall_mem_cons

/-- Bytes that are masked out altogether agree. -/
theorem drawAlike_of_mask_zero {e : Emulator π} (f : Emulator ρ) {ops : List Operation}
    (h : ∀ x ∈ e.history ops, ∀ mask ∈ x.mask?, mask = 0) : DrawAlike e f ops := by
  rintro ⟨x, y⟩ hp mask hmask
  obtain rfl := h x (List.of_mem_zip hp).1 mask hmask
  rw [UInt8.and_zero, UInt8.and_zero]

/-- **Runs of the same machine on two platforms** are alike at every point, if the emulators draw
alike. -/
theorem alike_performAll {e : Emulator π} {f : Emulator ρ} {past ops : List Operation}
    (h : e.machine = f.machine) (hdraw : DrawAlike e f ops) (hpast : past <+: ops) :
    Alike (e.performAll past) (f.performAll past) := by
  induction past generalizing e f ops with
  | nil => exact ⟨rfl, h, rfl⟩
  | cons op past ih =>
    obtain ⟨rest, rfl⟩ := hpast
    obtain ⟨hnow, hlater⟩ := drawAlike_cons.mp hdraw
    have hfirst : Alike (e.perform op) (f.perform op) := by
      refine alike_perform h ?_
      rintro rfl mask hmask
      exact hnow mask hmask
    have hrest := ih hfirst.machine hlater (List.prefix_append past rest)
    refine ⟨?_, hrest.machine, ?_⟩
    · exact congrArg₂ List.cons hfirst.result hrest.result
    · show Event.calls (_ ++ _) = Event.calls (_ ++ _)
      rw [Event.calls_append, Event.calls_append, hfirst.calls]
      exact congrArg _ hrest.calls

/-- **A random byte is drawn once for each `CXNN`**, and at no other time. -/
theorem count_random_perform (e : Emulator π) (op : Operation) :
    (Event.calls (e.perform op).events).count .random
      = if (Moment.mask? ⟨e, op⟩).isSome then 1 else 0 := by
  by_cases hop : op = .tick
  · subst hop
    have hcalls : Event.calls (e.perform .tick).events = _ := calls_tick e
    have hmask : Moment.mask? ⟨e, .tick⟩ = e.machine.mask? := if_pos rfl
    rw [hcalls, hmask, Machine.needsRandom_eq]
    split <;> simp
  · have hmask : Moment.mask? ⟨e, op⟩ = none := if_neg hop
    rw [calls_perform_of_ne_tick e hop, hmask]
    rfl

/-- What it means that a run tells a program nothing of its platform but masked random bits, with
another platform for comparison. -/
structure Insulated (e : Emulator π) (f : Emulator ρ) (ops : List Operation) : Prop where
  /-- If the two draw alike, then everything is the same after every operation. -/
  alike : DrawAlike e f ops →
    ∀ past, past <+: ops → Alike (e.performAll past) (f.performAll past)
  /-- A random byte is drawn once for each `CXNN` that is executed, and at no other time. -/
  random : ∀ x ∈ e.history ops,
    (Event.calls (x.state.perform x.input).events).count .random
      = if x.mask?.isSome then 1 else 0
  /-- If all the masks are zero, then everything is the same whatever the platforms draw. -/
  masked : (∀ x ∈ e.history ops, ∀ mask ∈ x.mask?, mask = 0) →
    ∀ past, past <+: ops → Alike (e.performAll past) (f.performAll past)

/-- **A program learns nothing of its platform but the random bits under its masks.** -/
theorem insulated_of_machine_eq {e : Emulator π} {f : Emulator ρ} (h : e.machine = f.machine)
    (ops : List Operation) : Insulated e f ops where
  alike hdraw _ hpast := alike_performAll h hdraw hpast
  random x _ := count_random_perform x.state x.input
  masked hzero _ hpast := alike_performAll h (drawAlike_of_mask_zero f hzero) hpast

/-- Two terminals that draw the bytes 20 and 26, and 196 and 234: under the mask `0F` both give 4
and 10, and the program, which jumps by what was drawn, does the same on both. -/
theorem insulated_of_machine_eq_low_digits :
    let e := scripted [20, 26]
    let f := scripted [196, 234]
    let ops : List Operation :=
      [.load [0xC0, 0x0F, 0xC1, 0x0F, 0xB2, 0x00], .tick, .tick, .tick]
    e.machine = f.machine ∧ e.nextByte ≠ f.nextByte ∧ DrawAlike e f ops ∧
      Alike (e.performAll ops) (f.performAll ops) := by
  intro e f ops
  have hsame : e.machine = f.machine := rfl
  obtain ⟨hbyte, hdraw⟩ : e.nextByte ≠ f.nextByte ∧ DrawAlike e f ops := by decide +kernel
  exact ⟨hsame, hbyte, hdraw, (insulated_of_machine_eq hsame ops).alike hdraw ops List.prefix_rfl⟩

end Emulator

end Chip8
