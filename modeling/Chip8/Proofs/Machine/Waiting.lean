/-
# Waiting for a key

The instruction `FX0A` stops as long as no key is down, and it is fetched again on every tick.  In
the meantime a host may do what it likes with the keys, the timers and the screen; only a key that
is down when the machine is ticked makes a difference.

* `Machine.Suspended` says what a machine that waits keeps.  The word at the program counter is part
  of that, so the wait goes on (`Emulator.waits_performAll`).
* `Machine.TookKey` says what the tick does that finds a key down, and
  `Machine.achieves_waitKey` that it does so.
-/
import Chip8.Proofs.Machine.Diagnosis
import Chip8.Proofs.Machine.Keys
import Chip8.Proofs.Machine.ProgramCounter

namespace Chip8

/-! ## 1. Keys -/

namespace Keypad

/-- No key is down. -/
def AllUp (k : Keypad) : Prop := ∀ key, k.isDown key = false

/-- A number that names no key presses none. -/
theorem set_of_not_isKey (k : Keypad) {key : UInt8} (h : isKey key = false) (down : Bool) :
    k.set key down = k :=
  Keypad.ext (Vector.setIfInBounds_eq_of_size_le (le_of_not_isKey h))

/-- The lowest key that is down: it is down, and none below it is. -/
theorem isDown_of_lowest? {k : Keypad} {key : Fin 16} (h : k.lowest? = some key) :
    k.isDown (UInt8.ofNat key.val) = true ∧
      ∀ other, k.isDown other = true → UInt8.ofNat key.val ≤ other := by
  have hkey : (UInt8.ofNat key.val).toNat = key.val := by
    rw [UInt8.toNat_ofNat']
    omega
  obtain ⟨hdown, n, hn, hnth, hbelow⟩ := List.find?_eq_some_iff_getElem.mp h
  refine ⟨?_, fun other hother => ?_⟩
  · rw [isDown, hkey, Vector.getElem?_eq_getElem key.isLt]
    exact hdown
  · rw [UInt8.le_iff_toNat_le, hkey]
    refine Nat.le_of_not_lt fun hlt => ?_
    have hn' : n = key.val := by rw [← hnth, List.getElem_finRange]; rfl
    have hup := hbelow other.toNat (hn'.symm ▸ hlt)
    rw [List.getElem_finRange] at hup
    rw [isDown, Vector.getElem?_eq_getElem (hlt.trans key.isLt)] at hother
    exact absurd hother (by simpa using hup)

end Keypad

/-! ## 2. A machine that waits -/

namespace Machine

/-- What a machine that waits keeps: all but its timers, its keys and the mark on its screen. -/
structure Suspended (m m' : Machine) : Prop where
  dialect : m'.dialect = m.dialect
  v : m'.v = m.v
  index : m'.index = m.index
  pc : m'.pc = m.pc
  memory : m'.memory = m.memory
  stack : m'.stack = m.stack
  screen : m'.screen = m.screen

/-- What the tick does that takes the lowest key that is down into VX. -/
structure TookKey (m : Machine) (x : Register) (m' : Machine) : Prop where
  down : m.keys.isDown (m'.v.get x) = true
  lowest : ∀ key, m.keys.isDown key = true → m'.v.get x ≤ key
  others : ∀ z, z ≠ x → m'.v.get z = m.v.get z
  pc : m'.pc.toNat = m.pc.toNat + 2
  rest : m' = { m with v := m'.v, pc := m'.pc }

variable {m m' m'' : Machine} {x : Register}

/-- The timers, the keys and the mark may be set to anything. -/
theorem suspended_with (m : Machine) (delay sound : Countdown) (keys : Keypad) (redraw : Bool) :
    m.Suspended { m with delay, sound, keys, redraw } := ⟨rfl, rfl, rfl, rfl, rfl, rfl, rfl⟩

theorem Suspended.refl (m : Machine) : m.Suspended m := m.suspended_with ..

theorem Suspended.trans (h : m.Suspended m') (h' : m'.Suspended m'') : m.Suspended m'' where
  dialect := h'.dialect.trans h.dialect
  v := h'.v.trans h.v
  index := h'.index.trans h.index
  pc := h'.pc.trans h.pc
  memory := h'.memory.trans h.memory
  stack := h'.stack.trans h.stack
  screen := h'.screen.trans h.screen

/-- The same instruction is fetched again. -/
theorem Suspended.decode_fetch (h : m.Suspended m') : decode m'.fetch = decode m.fetch := by
  rw [fetch, fetch, h.memory, h.pc]

/-- Without a key the instruction waits. -/
theorem obstacle_of_allUp (h : decode m.fetch = .ok (.waitKey x)) (hup : m.keys.AllUp) :
    m.obstacle? = some .waiting := by
  have hnone : m.keys.lowest? = none := Keypad.lowest?_eq_none_iff.mpr hup
  simp only [obstacle?, h, refusal_waitKey, hnone, if_true]

/-- **With a key the instruction takes the lowest.** -/
theorem achieves_waitKey (hpc : m.pc.toNat < 0x1000) (hdown : ¬ m.keys.AllUp) :
    m.Achieves (.waitKey x) (m.TookKey x) := by
  cases hkey : m.keys.lowest? with
  | none => exact absurd (Keypad.lowest?_eq_none_iff.mp hkey) hdown
  | some key =>
    obtain ⟨hlow, hleast⟩ := Keypad.isDown_of_lowest? hkey
    have hvx : (m.put x (UInt8.ofNat key.val)).next.v.get x = UInt8.ofNat key.val :=
      Registers.get_set_self ..
    refine achieves_of_execute fun byte => ⟨(m.put x (UInt8.ofNat key.val)).next, ?_, ?_⟩
    · simp only [execute, hkey]
    · refine ⟨?_, ?_, fun z hz => get_put_of_ne _ hz, ?_, rfl⟩
      · rw [hvx]
        exact hlow
      · rw [hvx]
        exact hleast
      · have hroom : m.pc.toNat + 2 < 65536 := by omega
        rw [pc_next]
        exact UInt16.toNat_ofNat_of_lt' hroom

end Machine

/-! ## 3. Polling -/

namespace Emulator

variable {π : Type} [Platform π]

/-- Whether a moment leaves the wait for a key as it is: the machine is ticked only while no key is
down, no program is loaded and the machine is not reset. -/
def Moment.Polls (t : Moment π) : Prop :=
  match t.input with
  | .tick => t.state.machine.keys.AllUp
  | .countDown | .setKey _ _ | .takeScreen => True
  | .load _ | .reset => False

variable {e : Emulator π} {x : Register}

/-- **A moment of polling** leaves the machine suspended. -/
theorem suspended_perform {op : Operation} (h : decode e.machine.fetch = .ok (.waitKey x))
    (hpolls : Moment.Polls ⟨e, op⟩) : e.machine.Suspended (e.perform op).state.machine := by
  cases op with
  | tick =>
    show e.machine.Suspended e.tick.state.machine
    rw [state_tick_of_obstacle (Machine.obstacle_of_allUp h hpolls)]
    exact .refl _
  | countDown | setKey key down | takeScreen => exact e.machine.suspended_with ..
  | load program | reset => exact hpolls.elim

/-- **Polling goes on for as long as no tick finds a key down.** -/
theorem waits_performAll {ops : List Operation} (h : decode e.machine.fetch = .ok (.waitKey x))
    (hpolls : ∀ t ∈ e.history ops, t.Polls) :
    (∀ r, .ticked r ∈ (e.performAll ops).result → r = .error .waiting) ∧
      e.machine.Suspended (e.performAll ops).state.machine := by
  let P (after : Emulator π) : Prop := e.machine.Suspended after.machine
  have hkeep : ∀ t ∈ e.history ops, P t.state → P (t.state.perform t.input).state := by
    intro t ht hsame
    exact hsame.trans (suspended_perform (hsame.decode_fetch.trans h) (hpolls t ht))
  obtain ⟨hmoments, hend⟩ := Step.moments_invariant (P := P) hkeep (.refl _)
  refine ⟨fun r hr => ?_, hend⟩
  rw [performAll, Step.result_iterate] at hr
  obtain ⟨⟨before, op⟩, ht, hanswer⟩ := List.mem_map.mp hr
  have hpoll : Moment.Polls ⟨before, op⟩ := hpolls _ ht
  have hdecode : decode before.machine.fetch = .ok (.waitKey x) :=
    (hmoments _ ht).decode_fetch.trans h
  cases op with
  | tick =>
    obtain rfl : before.tick.result = r := Answer.ticked.inj hanswer
    exact result_tick_of_obstacle (Machine.obstacle_of_allUp hdecode hpoll)
  | countDown | setKey key down | load program | reset | takeScreen => cases hanswer

/-- **The first tick that finds a key down** ends the wait. -/
theorem tookKey_performAll {ops : List Operation} (h : decode e.machine.fetch = .ok (.waitKey x))
    (hpolls : ∀ t ∈ e.history ops, t.Polls) :
    let before := (e.performAll ops).state
    ¬ before.machine.keys.AllUp →
      before.tick.result = .ok () ∧ before.machine.TookKey x before.tick.state.machine := by
  intro before hdown
  have hdecode : decode before.machine.fetch = .ok (.waitKey x) :=
    (waits_performAll h hpolls).2.decode_fetch.trans h
  have hpc := Machine.pc_lt_of_decode hdecode
  exact (Machine.achieves_waitKey hpc hdown).tick before rfl hdecode

end Emulator

end Chip8
