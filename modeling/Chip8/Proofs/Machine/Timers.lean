/-
# The two timers over a run

Each timer is set by one instruction, counted down by the host, cleared by a reset and left alone by
everything else.  So its value at any point of a run is the byte that was stored in it last, less
the ticks since, and nothing below zero.

* `timer_step` and `left_perform`: what one instruction, and one operation, does to a timer.
* `left_performAll`: the value after a run is what `remaining` reads off from what was done in it.
* The machine reports the sound timer to the platform once a tick, as the last call, whether the
  instruction took effect or not (`calls_tick`).
-/
import Chip8.Proofs.History
import Chip8.Proofs.Machine.Diagnosis
import Chip8.Proofs.Machine.Effects

namespace Chip8

/-! ## 1. Timers and the words that set them -/

/-- One of the two timers of a machine. -/
inductive Timer
  | delay
  | sound
deriving DecidableEq

namespace Timer

/-- The instruction that stores VX in the timer: `FX15` or `FX18`. -/
def setter (t : Timer) (x : Register) : Instruction :=
  match t with
  | .delay => .setDelay x
  | .sound => .setSound x

/-- The last two digits of its word. -/
def digits : Timer → Nat
  | .delay => 0x15
  | .sound => 0x18

theorem decode_eq_setter_iff {t : Timer} {w : UInt16} {x : Register} :
    decode w = .ok (t.setter x) ↔
      Word.family w = 0xF ∧ (Word.nn w).toNat = t.digits ∧ x = Word.x w := by
  cases t with
  | delay =>
    rw [setter, decode_eq_device_iff (x := x) (k := 0x15) (by decide) rfl]
    simp [Instruction.ofDevice?, digits, eq_comm]
  | sound =>
    rw [setter, decode_eq_device_iff (x := x) (k := 0x18) (by decide) rfl]
    simp [Instruction.ofDevice?, digits, eq_comm]

end Timer

theorem decode_eq_readDelay_iff {w : UInt16} {x : Register} :
    decode w = .ok (.readDelay x) ↔
      Word.family w = 0xF ∧ (Word.nn w).toNat = 0x07 ∧ x = Word.x w := by
  rw [decode_eq_device_iff (x := x) (k := 0x07) (by decide) rfl]
  simp [Instruction.ofDevice?, eq_comm]

namespace Machine

/-- A timer of the machine. -/
def timer (m : Machine) : Timer → Countdown
  | .delay => m.delay
  | .sound => m.sound

/-- The byte that the instruction at the program counter stores in a timer, if it stores one. -/
def stores? (m : Machine) (t : Timer) : Option UInt8 :=
  if Word.family m.fetch = 0xF ∧ (Word.nn m.fetch).toNat = t.digits then
    some (m.v.get (Word.x m.fetch))
  else none

theorem decode_of_stores? {m : Machine} {t : Timer} {b : UInt8} (h : m.stores? t = some b) :
    decode m.fetch = .ok (t.setter (Word.x m.fetch)) ∧ b = m.v.get (Word.x m.fetch) := by
  unfold stores? at h
  split at h
  · rename_i hword
    exact ⟨Timer.decode_eq_setter_iff.mpr ⟨hword.1, hword.2, rfl⟩, (Option.some.inj h).symm⟩
  · cases h

theorem stores?_of_decode {m : Machine} {t : Timer} {x : Register}
    (h : decode m.fetch = .ok (t.setter x)) : m.stores? t = some (m.v.get x) := by
  obtain ⟨hfamily, hdigits, rfl⟩ := Timer.decode_eq_setter_iff.mp h
  exact if_pos ⟨hfamily, hdigits⟩

/-! ## 2. One instruction -/

/-- An instruction that does not set a timer leaves it alone. -/
theorem timer_execute (m : Machine) (byte : UInt8) {i : Instruction} {t : Timer}
    (h : ∀ x, i ≠ t.setter x) : (m.execute byte i).machine.timer t = m.timer t := by
  have hsame : (m.changed i).timer t = m.timer t := by
    cases i with
    | setDelay x =>
      cases t with
      | delay => exact absurd rfl (h x)
      | sound => rfl
    | setSound x =>
      cases t with
      | delay => rfl
      | sound => exact absurd rfl (h x)
    | _ => cases t <;> rfl
  have hview : ∀ m : Machine, m.surroundings.timer t = m.timer t := by
    intro m
    cases t <;> rfl
  rw [← hview, surroundings_execute, hsame]

/-- **What the instruction at the program counter does to a timer.** -/
theorem timer_step (m : Machine) (byte : UInt8) (t : Timer) :
    (m.step byte).machine.timer t = ((m.stores? t).map Countdown.mk).getD (m.timer t) := by
  cases hstores : m.stores? t with
  | some b =>
    obtain ⟨hdecode, rfl⟩ := decode_of_stores? hstores
    simp only [step, hdecode]
    cases t <;> rfl
  | none =>
    cases hdecode : decode m.fetch with
    | error e =>
      simp only [step, hdecode]
      rfl
    | ok i =>
      simp only [step, hdecode]
      refine m.timer_execute byte ?_
      rintro x rfl
      rw [stores?_of_decode hdecode] at hstores
      cases hstores

/-- The word `FX07` stores the delay timer in VX. -/
theorem get_step_of_readDelay {m : Machine} (byte : UInt8) (hfamily : Word.family m.fetch = 0xF)
    (hdigits : (Word.nn m.fetch).toNat = 0x07) :
    ∃ m', m.step byte = .done m' ∧ m'.v.get (Word.x m.fetch) = m.delay.left := by
  have hdecode := decode_eq_readDelay_iff.mpr ⟨hfamily, hdigits, rfl⟩
  refine ⟨(m.put (Word.x m.fetch) m.delay.left).next, ?_, Registers.get_set_self ..⟩
  simp only [step, hdecode, execute]

end Machine

namespace Emulator

variable {π : Type} [Platform π]

/-! ## 3. What a moment means for a timer -/

namespace Moment

/-- The byte that was stored in a timer, if an instruction stored one. -/
def stored? (t : Timer) (x : Moment π) : Option UInt8 :=
  if x.input = .tick ∧ x.state.tick.result = .ok () then x.state.machine.stores? t else none

/-- Whether what was in a timer before no longer counts: the machine was reset, or a byte was stored
in it. -/
def sets (t : Timer) (x : Moment π) : Bool := x.isReset || (x.stored? t).isSome

/-- Whether the timers were counted down. -/
def countsDown (x : Moment π) : Bool := x.input = .countDown

/-- An instruction that stores a byte in a timer always takes effect. -/
theorem stored?_tick (t : Timer) (e : Emulator π) :
    stored? t ⟨e, .tick⟩ = e.machine.stores? t := by
  cases hstores : e.machine.stores? t with
  | none => simp [stored?, hstores]
  | some b =>
    have hdecode := (Machine.decode_of_stores? hstores).1
    have hfree : e.machine.obstacle? = none := by
      simp only [Machine.obstacle?, hdecode]
      cases t <;> rfl
    simp [stored?, hstores, result_tick_eq_ok_iff.mpr hfree]

end Moment

/-- The byte that was stored last in a timer since the last reset, zero if none was. -/
def lastStored (t : Timer) (h : List (Moment π)) : UInt8 :=
  ((Step.since Moment.isReset h).filterMap (Moment.stored? t)).getLast?.getD 0

/-- How often the timers were counted down since then. -/
def ticksSince (t : Timer) (h : List (Moment π)) : Nat :=
  (Step.since (Moment.sets t) h).countP Moment.countsDown

/-- What is left of a timer: the byte that was stored in it less the ticks since, if any. -/
def remaining (t : Timer) (h : List (Moment π)) : Nat := (lastStored t h).toNat - ticksSince t h

section Remaining

variable {t : Timer} {h : List (Moment π)} {x : Moment π}

theorem remaining_concat_of_reset (hx : x.isReset = true) : remaining t (h ++ [x]) = 0 := by
  rw [remaining, lastStored, Step.since_concat_of_stop hx]
  exact Nat.zero_sub _

theorem remaining_concat_of_stored {b : UInt8} (hreset : x.isReset = false)
    (hx : x.stored? t = some b) : remaining t (h ++ [x]) = b.toNat := by
  have hsets : x.sets t = true := by simp [Moment.sets, hx]
  rw [remaining, lastStored, Step.since_concat hreset, ticksSince,
    Step.since_concat_of_stop hsets]
  simp [hx]

theorem remaining_concat (hreset : x.isReset = false) (hx : x.stored? t = none) :
    remaining t (h ++ [x]) = remaining t h - if x.countsDown then 1 else 0 := by
  have hsets : x.sets t = false := by simp [Moment.sets, hreset, hx]
  rw [remaining, remaining, lastStored, lastStored, ticksSince, ticksSince,
    Step.since_concat hreset, Step.since_concat hsets, List.countP_append, Nat.sub_sub]
  simp [hx, List.countP_cons]

end Remaining

/-! ## 4. Runs -/

/-- **What an operation does to a timer.** -/
theorem left_perform {e : Emulator π} {h : List (Moment π)} {t : Timer}
    (he : (e.machine.timer t).left.toNat = remaining t h) (op : Operation) :
    ((e.perform op).state.machine.timer t).left.toNat = remaining t (h ++ [⟨e, op⟩]) := by
  cases op with
  | tick =>
    have htimer : (e.perform .tick).state.machine.timer t = _ :=
      e.machine.timer_step e.supply.1 t
    have hstored := Moment.stored?_tick t e
    rw [htimer]
    cases hstores : e.machine.stores? t with
    | some b =>
      rw [remaining_concat_of_stored rfl (hstored.trans hstores)]
      rfl
    | none =>
      rw [remaining_concat rfl (hstored.trans hstores)]
      exact he
  | countDown =>
    have htick : (e.perform .countDown).state.machine.timer t = (e.machine.timer t).tick := by
      cases t <;> rfl
    rw [htick, Countdown.toNat_tick, he, remaining_concat rfl rfl]
    rfl
  | reset =>
    rw [remaining_concat_of_reset rfl]
    cases t <;> rfl
  | setKey key down | load program | takeScreen =>
    rw [remaining_concat rfl rfl]
    cases t <;> exact he

/-- **The value of a timer after a run** of a machine just switched on. -/
theorem left_performAll (d : Dialect) (p : π) (ops : List Operation) (t : Timer) :
    let e : Emulator π := ⟨.powerOn d, p⟩
    ((e.performAll ops).state.machine.timer t).left.toNat = remaining t (e.history ops) := by
  intro e
  induction ops using List.reverseRecOn with
  | nil => cases t <;> rfl
  | append_singleton ops op ih =>
    rw [state_performAll_concat, history_concat]
    exact left_perform ih op

/-- **What a tick calls**: a random byte if the instruction needs one, and after that the tone,
once, by the sound timer as the tick leaves it. -/
theorem calls_tick (e : Emulator π) :
    Event.calls e.tick.events
      = (if e.machine.needsRandom then [.random] else [])
        ++ [.tone e.tick.state.machine.sound.isActive] := by
  cases hrandom : e.machine.needsRandom <;> simp [tick, hrandom]

/-- What it means that the timers and the tone of an emulator are those of a run `h`. -/
structure Timed (e : Emulator π) (h : List (Moment π)) : Prop where
  /-- Each timer has what is left of the byte that was stored in it last since the last reset. -/
  left : ∀ t, (e.machine.timer t).left.toNat = (lastStored t h).toNat - ticksSince t h
  /-- If the next word is `FX07`, then the tick takes effect and VX is what is left of the delay
  timer. -/
  read : Word.family e.machine.fetch = 0xF → (Word.nn e.machine.fetch).toNat = 0x07 →
    e.tick.result = .ok () ∧
      (e.tick.state.machine.v.get (Word.x e.machine.fetch)).toNat
        = (lastStored .delay h).toNat - ticksSince .delay h
  /-- Whatever the next tick comes to, it makes one call about the tone, after all other calls: the
  tone is on exactly if the sound timer has something left after the tick. -/
  tone : ∃ before, Event.calls e.tick.events
      = before ++ [.tone (decide (e.tick.state.machine.sound.left ≠ 0))] ∧
    ∀ on, .tone on ∉ before

/-- **The timers and the tone follow the run**, in any run of a machine just switched on. -/
theorem timed_performAll (d : Dialect) (p : π) (ops : List Operation) :
    let e : Emulator π := ⟨.powerOn d, p⟩
    (e.performAll ops).state.Timed (e.history ops) := by
  intro e
  have hleft : ∀ t, _ := left_performAll d p ops
  refine ⟨hleft, ?_, ?_⟩
  · intro hfamily hdigits
    let e' := (e.performAll ops).state
    obtain ⟨m', hstep, hread⟩ := Machine.get_step_of_readDelay e'.supply.1 hfamily hdigits
    have hmachine : e'.tick.state.machine = m' := congrArg Outcome.machine hstep
    have hresult : e'.tick.result = .ok () := congrArg Outcome.result hstep
    refine ⟨hresult, ?_⟩
    rw [hmachine, hread]
    exact hleft .delay
  · refine ⟨_, calls_tick _, ?_⟩
    intro on
    split <;> simp

end Emulator

end Chip8
