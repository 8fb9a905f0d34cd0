/-
# Operations that can be done in either order

Between two instructions a host counts the timers down and presses keys.  Whether it does so just
before an instruction or just after it makes a difference to few instructions only: to those that
look at the timers or set them, and to those that look at the keys.

* Both operations are adjustments of the machine (`perform_of_adjustment?`), so they can be
  exchanged with a tick at an instruction that does not notice them (`exchangeable_tick`), whether
  it takes effect, waits or faults.
* The platform can tell the order only by the tone (`calledAlike_tick_iff`): if the timer tick is
  the one that ends it, the tick before still finds it on.
* `ticks_exchange_with_timers_and_keys` is all of this together; a key and a timer tick can always be exchanged.
-/
import Chip8.Proofs.Machine.Independence
import Chip8.Proofs.Machine.Randomness

namespace Chip8

/-- A timer tick ends the countdown exactly if one tick was left. -/
theorem Countdown.isActive_tick_eq_iff {c : Countdown} :
    c.tick.isActive = c.isActive ↔ c.left ≠ 1 := by
  have hactive : ∀ c : Countdown, c.isActive = decide (c.left.toNat ≠ 0) := by
    intro c
    rw [isActive, decide_eq_decide, ne_eq, ← UInt8.toNat_inj]
    rfl
  have hone : c.left ≠ 1 ↔ c.left.toNat ≠ 1 := by
    rw [ne_eq, ← UInt8.toNat_inj]
    rfl
  rw [hactive, hactive, decide_eq_decide, toNat_tick, hone]
  omega

/-! ## 1. Words that look at the timers or the keys -/

namespace Machine

/-- Whether the word at the program counter is `FX07`, `FX15` or `FX18`. -/
def UsesTimers (m : Machine) : Prop :=
  Word.family m.fetch = 0xF ∧ (Word.nn m.fetch).toNat ∈ [0x07, 0x15, 0x18]

/-- Whether the word at the program counter is `EX9E`, `EXA1` or `FX0A`. -/
def ReadsKeys (m : Machine) : Prop :=
  (Word.family m.fetch = 0xE ∧ (Word.nn m.fetch).toNat ∈ [0x9E, 0xA1]) ∨
    (Word.family m.fetch = 0xF ∧ (Word.nn m.fetch).toNat = 0x0A)

theorem usesTimers_of_setter {m : Machine} {t : Timer} {x : Register}
    (h : decode m.fetch = .ok (t.setter x)) : m.UsesTimers := by
  obtain ⟨hfamily, hnn, -⟩ := Timer.decode_eq_setter_iff.mp h
  refine ⟨hfamily, ?_⟩
  rw [hnn]
  cases t <;> decide

theorem readsKeys_of_keyTest {m : Machine} {x : Register} {k : Nat} {i : Instruction}
    (hk : k ∈ [0x9E, 0xA1]) (hi : Instruction.ofKeyTest? x k = some i)
    (h : decode m.fetch = .ok i) : m.ReadsKeys := by
  have hlt : k < 256 := by
    rw [List.mem_pair] at hk
    omega
  obtain ⟨hfamily, hnn, -⟩ := (decode_eq_keyTest_iff hlt hi).mp h
  exact Or.inl ⟨hfamily, hnn.symm ▸ hk⟩

end Machine

namespace Adjustment

/-- Both timers counted down by one. -/
def countedDown : Adjustment where
  delay := Countdown.tick
  sound := Countdown.tick

/-- A key pressed or released. -/
def keyed (key : UInt8) (down : Bool) : Adjustment where
  keys := (Keypad.set · key down)

/-- An instruction that does not look at the timers does not notice that they were counted down. -/
theorem unnoticedNext_countedDown {m : Machine} (h : ¬ m.UsesTimers) :
    countedDown.UnnoticedNext m := by
  intro i hdecode
  cases i with
  | readDelay x =>
    obtain ⟨hfamily, hnn, -⟩ := decode_eq_readDelay_iff.mp hdecode
    exact absurd ⟨hfamily, by rw [hnn]; decide⟩ h
  | setDelay x => exact absurd (Machine.usesTimers_of_setter (t := .delay) hdecode) h
  | setSound x => exact absurd (Machine.usesTimers_of_setter (t := .sound) hdecode) h
  | combine op x y => rfl
  | skipDown x | skipUp x | waitKey x | storeRegisters x | loadRegisters x => rfl
  | _ => trivial

/-- An instruction that does not look at the keys does not notice that one was pressed. -/
theorem unnoticedNext_keyed {m : Machine} (h : ¬ m.ReadsKeys) (key : UInt8) (down : Bool) :
    (keyed key down).UnnoticedNext m := by
  intro i hdecode
  cases i with
  | skipDown x =>
    exact absurd (Machine.readsKeys_of_keyTest (x := x) (k := 0x9E) (by decide) rfl hdecode) h
  | skipUp x =>
    exact absurd (Machine.readsKeys_of_keyTest (x := x) (k := 0xA1) (by decide) rfl hdecode) h
  | waitKey x =>
    obtain ⟨hfamily, hnn, -⟩ := decode_eq_waitKey_iff.mp hdecode
    exact absurd (Or.inr ⟨hfamily, hnn⟩) h
  | combine op x y => rfl
  | readDelay x | setDelay x | setSound x | storeRegisters x | loadRegisters x => rfl
  | _ => trivial

end Adjustment

namespace Emulator

variable {π : Type} [Platform π]

/-! ## 2. Two operations in either order -/

/-- Whether the platform is called the same in whichever order two operations are done. -/
def CalledAlike (e : Emulator π) (a b : Operation) : Prop :=
  Event.calls (e.performAll [a, b]).events = Event.calls (e.performAll [b, a]).events

/-- What it means that the machine cannot tell in which order two operations were done. -/
structure Exchangeable (e : Emulator π) (a b : Operation) : Prop where
  /-- Each answers the same. -/
  answers : (e.performAll [a, b]).result = (e.performAll [b, a]).result.reverse
  /-- The machine is the same afterwards. -/
  machine : (e.performAll [a, b]).state.machine = (e.performAll [b, a]).state.machine
  /-- As many random bytes are drawn. -/
  random : (Event.calls (e.performAll [a, b]).events).count .random
    = (Event.calls (e.performAll [b, a]).events).count .random
  /-- If the platform is called the same, then it is the same afterwards. -/
  platform : e.CalledAlike a b →
    (e.performAll [a, b]).state.platform = (e.performAll [b, a]).state.platform

theorem performAll_pair (e : Emulator π) (a b : Operation) :
    e.performAll [a, b]
      = ⟨[(e.perform a).result, ((e.perform a).state.perform b).result],
          ((e.perform a).state.perform b).state,
          (e.perform a).events ++ ((e.perform a).state.perform b).events⟩ := by
  simp only [performAll, Step.iterate_cons, Step.iterate_nil, List.append_nil]

theorem perform_tick (e : Emulator π) :
    e.perform .tick = ⟨.ticked e.tick.result, e.tick.state, e.tick.events⟩ := rfl

/-- The adjustment that an operation makes, for those that only adjust the machine. -/
def Operation.adjustment? : Operation → Option Adjustment
  | .countDown => some .countedDown
  | .setKey key down => some (.keyed key down)
  | .tick | .load _ | .reset | .takeScreen => none

/-- An operation that only adjusts the machine does so without answer and without a call. -/
theorem perform_of_adjustment? {op : Operation} {a : Adjustment} (h : op.adjustment? = some a)
    (e : Emulator π) :
    (e.perform op).result = .done ∧ (e.perform op).state = e.mapMachine a.adjust ∧
      Event.calls (e.perform op).events = [] := by
  cases op with
  | countDown | setKey key down =>
    obtain rfl := Option.some.inj h
    exact ⟨rfl, rfl, calls_perform_of_ne_tick e nofun⟩
  | tick | load program | reset | takeScreen => cases h

/-- What the platform is called for if the adjustment comes last, -/
theorem calls_performAll_tick_adjusted {op : Operation} {a : Adjustment}
    (hop : op.adjustment? = some a) (e : Emulator π) :
    Event.calls (e.performAll [.tick, op]).events
      = (if e.machine.needsRandom then [.random] else [])
        ++ [.tone e.tick.state.machine.sound.isActive] := by
  obtain ⟨-, -, hcalls⟩ := perform_of_adjustment? hop e.tick.state
  rw [performAll_pair, Event.calls_append, perform_tick, hcalls, List.append_nil]
  exact calls_tick e

section Tick

variable {e : Emulator π} {op : Operation} {a : Adjustment} (hop : op.adjustment? = some a)
  (h : a.UnnoticedNext e.machine)

include hop h

/-- and if it comes first. -/
theorem calls_performAll_adjusted_tick :
    Event.calls (e.performAll [op, .tick]).events
      = (if e.machine.needsRandom then [.random] else [])
        ++ [.tone (a.adjust e.tick.state.machine).sound.isActive] := by
  obtain ⟨-, hstate, hcalls⟩ := perform_of_adjustment? hop e
  rw [performAll_pair, Event.calls_append, hcalls, hstate, perform_tick, List.nil_append]
  exact Adjustment.calls_tick_adjust h

/-- **The platform notices the order by the tone**, if at all. -/
theorem calledAlike_tick_iff :
    e.CalledAlike op .tick ↔
      (a.adjust e.tick.state.machine).sound.isActive = e.tick.state.machine.sound.isActive := by
  rw [CalledAlike, calls_performAll_adjusted_tick hop h, calls_performAll_tick_adjusted hop,
    List.append_cancel_left_eq, List.singleton_inj]
  exact ⟨Call.tone.inj, congrArg Call.tone⟩

/-- **An adjustment that is not noticed can be made before the tick or after it.** -/
theorem exchangeable_tick : e.Exchangeable op .tick := by
  obtain ⟨hbefore, hstate, -⟩ := perform_of_adjustment? hop e
  obtain ⟨hafter, hstate', -⟩ := perform_of_adjustment? hop e.tick.state
  refine ⟨?_, ?_, ?_, ?_⟩
  · rw [performAll_pair, performAll_pair, perform_tick, perform_tick, hbefore, hafter, hstate,
      Adjustment.result_tick_adjust h]
    rfl
  · rw [performAll_pair, performAll_pair, perform_tick, perform_tick, hstate, hstate',
      Adjustment.machine_tick_adjust h]
    rfl
  · rw [calls_performAll_adjusted_tick hop h, calls_performAll_tick_adjusted hop,
      List.count_append, List.count_append]
    rfl
  · intro halike
    have htick := Adjustment.tick_adjust h ((calledAlike_tick_iff hop h).mp halike)
    rw [performAll_pair, performAll_pair, perform_tick, perform_tick, hstate, hstate', htick]
    rfl

end Tick

/-! ## 3. What can be exchanged -/

/-- What it means that timer ticks, keys and instructions do not interfere with each other. -/
structure Independent (e : Emulator π) : Prop where
  /-- The timers can be counted down before or after an instruction that does not use them. -/
  timers : ¬ e.machine.UsesTimers → e.Exchangeable .countDown .tick
  /-- The platform is called the same exactly if it was not the last tick of the tone. -/
  tone : ¬ e.machine.UsesTimers → (e.CalledAlike .countDown .tick ↔ e.machine.sound.left ≠ 1)
  /-- A key can be pressed before or after an instruction that does not look at the keys, and the
  platform is called the same. -/
  keys : ¬ e.machine.ReadsKeys → ∀ key down,
    e.Exchangeable (.setKey key down) .tick ∧ e.CalledAlike (.setKey key down) .tick
  /-- A key can be pressed before or after the timers are counted down. -/
  host : ∀ key down,
    e.Exchangeable (.setKey key down) .countDown ∧ e.CalledAlike (.setKey key down) .countDown

/-- An instruction that does not use the timers leaves the sound timer alone. -/
theorem sound_tick_of_not_usesTimers {e : Emulator π} (h : ¬ e.machine.UsesTimers) :
    e.tick.state.machine.sound = e.machine.sound := by
  have hstores : e.machine.stores? .sound = none := by
    refine if_neg fun hword => h ⟨hword.1, ?_⟩
    rw [hword.2]
    decide
  have htimer := e.machine.timer_step e.supply.1 .sound
  rw [hstores] at htimer
  exact htimer

/-- **Timer ticks, keys and instructions are independent**, in every state of the machine, but for
the instructions that look at the timers or the keys. -/
theorem ticks_exchange_with_timers_and_keys (e : Emulator π) : e.Independent := by
  refine ⟨?_, ?_, ?_, ?_⟩
  · intro hword
    exact exchangeable_tick rfl (Adjustment.unnoticedNext_countedDown hword)
  · intro hword
    have hop : Operation.countDown.adjustment? = some .countedDown := rfl
    rw [calledAlike_tick_iff hop (Adjustment.unnoticedNext_countedDown hword),
      ← sound_tick_of_not_usesTimers hword]
    exact Countdown.isActive_tick_eq_iff
  · intro hword key down
    have hunnoticed := Adjustment.unnoticedNext_keyed hword key down
    exact ⟨exchangeable_tick rfl hunnoticed, (calledAlike_tick_iff rfl hunnoticed).mpr rfl⟩
  · intro key down
    have hquiet : ∀ a b : Operation, a ≠ .tick → b ≠ .tick →
        Event.calls (e.performAll [a, b]).events = Event.calls (e.performAll [b, a]).events := by
      intro a b ha hb
      rw [performAll_pair, performAll_pair, Event.calls_append, Event.calls_append,
        calls_perform_of_ne_tick e ha, calls_perform_of_ne_tick _ hb,
        calls_perform_of_ne_tick e hb, calls_perform_of_ne_tick _ ha]
    have hcalls := hquiet (.setKey key down) .countDown nofun nofun
    exact ⟨⟨rfl, rfl, congrArg (List.count .random) hcalls, fun _ => rfl⟩, hcalls⟩

end Emulator

end Chip8
