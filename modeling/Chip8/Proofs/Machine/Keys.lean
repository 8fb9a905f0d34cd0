/-
# Keys

Only a host presses and releases keys, and a key is where it was put last: `Keypad.isDown_setAll`
says this of any list of presses and releases, `Emulator.keys_performAll` that a run of operations
does to the keys what it presses and releases and nothing else, and `Emulator.isDown_performAll` puts
the two together.
-/
import Chip8.Proofs.Machine.Effects

namespace Chip8

/-! ## 1. Pressing keys one after the other -/

/-- A key that is pressed or released. -/
structure Press where
  key : UInt8
  down : Bool

namespace Keypad

/-- Presses and releases keys one after the other. -/
def setAll (k : Keypad) (ps : List Press) : Keypad := ps.foldl (fun k p => k.set p.key p.down) k

/-- Whether a key was pressed or released last, if it was either. -/
def last? (ps : List Press) (key : UInt8) : Option Bool :=
  (ps.filter fun p => p.key = key).getLast?.map Press.down

theorem setAll_append (k : Keypad) (ps qs : List Press) :
    k.setAll (ps ++ qs) = (k.setAll ps).setAll qs := List.foldl_append ..

theorem le_of_not_isKey {key : UInt8} (h : isKey key = false) : 16 ≤ key.toNat :=
  Nat.le_of_not_lt fun hlt =>
    absurd (decide_eq_true (UInt8.lt_iff_toNat_lt.mpr hlt)) (by rw [← isKey, h]; decide)

theorem isDown_of_not_isKey (k : Keypad) {key : UInt8} (h : isKey key = false) :
    k.isDown key = false := by
  rw [isDown, Vector.getElem?_eq_none (le_of_not_isKey h)]
  rfl

theorem last?_concat (ps : List Press) (p : Press) (key : UInt8) :
    last? (ps ++ [p]) key = if p.key = key then some p.down else last? ps key := by
  unfold last?
  rw [List.filter_append]
  by_cases h : p.key = key
  · simp [h]
  · simp [h]

/-- **A key is where it was put last.**  The induction takes the list from its end, where the last
press or release is. -/
theorem isDown_setAll (k : Keypad) (ps : List Press) (key : UInt8) :
    (k.setAll ps).isDown key = (isKey key && (last? ps key).getD (k.isDown key)) := by
  cases hkey : isKey key with
  | false => exact isDown_of_not_isKey _ hkey
  | true =>
    rw [Bool.true_and]
    induction ps using List.reverseRecOn with
    | nil => rfl
    | append_singleton ps p ih =>
      have hsetAll : k.setAll (ps ++ [p]) = (k.setAll ps).set p.key p.down := k.setAll_append ps [p]
      rw [hsetAll, isDown_set, last?_concat, ih]
      by_cases hp : p.key = key
      · subst hp
        simp [hkey]
      · simp [hp, Ne.symm hp]

theorem ext_isDown {k k' : Keypad} (h : ∀ key, k.isDown key = k'.isDown key) : k = k' := by
  refine Keypad.ext (Vector.ext fun n hn => ?_)
  have hkey : (UInt8.ofNat n).toNat = n := UInt8.toNat_ofNat_of_lt' (by rw [UInt8.size]; omega)
  have hn' := h (UInt8.ofNat n)
  rw [isDown, isDown, hkey, Vector.getElem?_eq_getElem hn, Vector.getElem?_eq_getElem hn] at hn'
  exact hn'

/-- What has to be pressed and what released for the keys to be like these. -/
def presses (k : Keypad) : List Press :=
  ((List.range 16).map UInt8.ofNat).map fun key => ⟨key, k.isDown key⟩

theorem last?_presses (k : Keypad) {key : UInt8} (h : isKey key = true) :
    last? k.presses key = some (k.isDown key) := by
  have hlt : key.toNat < 16 := UInt8.lt_iff_toNat_lt.mp (of_decide_eq_true h)
  have hmem : (⟨key, k.isDown key⟩ : Press) ∈ k.presses.filter fun p => p.key = key := by
    refine List.mem_filter.mpr ⟨List.mem_map.mpr ⟨key, ?_, rfl⟩, decide_eq_true rfl⟩
    exact List.mem_map.mpr ⟨key.toNat, List.mem_range.mpr hlt, UInt8.ofNat_toNat⟩
  rw [last?]
  cases hlast : (k.presses.filter fun p => p.key = key).getLast? with
  | none => exact absurd (List.getLast?_eq_none_iff.mp hlast) (List.ne_nil_of_mem hmem)
  | some p =>
    -- all that is done to the key agrees
    obtain ⟨hpress, hkey⟩ := List.mem_filter.mp (List.mem_of_getLast? hlast)
    obtain ⟨other, -, rfl⟩ := List.mem_map.mp hpress
    obtain rfl : other = key := of_decide_eq_true hkey
    rfl

/-- **Any keys can be set**, whatever keys are down before. -/
theorem setAll_presses (k k' : Keypad) : k.setAll k'.presses = k' := by
  refine ext_isDown fun key => ?_
  rw [isDown_setAll]
  cases hkey : isKey key with
  | false => exact (isDown_of_not_isKey k' hkey).symm
  | true =>
    rw [last?_presses k' hkey]
    rfl

/-- **Presses add up**: where each step of a run presses and releases what its input says, the run
presses and releases what its inputs say one after the other. -/
theorem setAll_iterate {σ ι α : Type} {op : σ → ι → Step σ α} {k : σ → Keypad}
    {press? : ι → Option Press}
    (h : ∀ s i, k (op s i).state = (k s).setAll (press? i).toList) (s : σ) (is : List ι) :
    k (Step.iterate op s is).state = (k s).setAll (is.filterMap press?) := by
  induction is generalizing s with
  | nil => rfl
  | cons i is ih =>
    have hpresses : (i :: is).filterMap press? = (press? i).toList ++ is.filterMap press? := by
      rw [List.filterMap_cons]
      cases press? i <;> rfl
    rw [Step.iterate_cons, ih, h, hpresses, setAll_append]

end Keypad

/-! ## 2. What a run leaves of the keys -/

namespace Emulator

/-- The key that an operation presses or releases. -/
def Operation.press? : Operation → Option Press
  | .setKey key down => some ⟨key, down⟩
  | .tick | .countDown | .load _ | .reset | .takeScreen => none

/-- What is pressed and released by a list of operations. -/
def presses (ops : List Operation) : List Press := ops.filterMap Operation.press?

variable {π : Type} [Platform π]

theorem keys_tick (e : Emulator π) : e.tick.state.machine.keys = e.machine.keys := by
  obtain ⟨-, hsame⟩ | ⟨i, -, hexecute⟩ := e.machine_tick_cases
  · rw [hsame]
  · rw [hexecute, Machine.keys_execute]

/-- An operation changes the keys by what it presses or releases. -/
theorem keys_perform (e : Emulator π) (op : Operation) :
    (e.perform op).state.machine.keys = e.machine.keys.setAll op.press?.toList := by
  cases op with
  | tick => exact e.keys_tick
  | countDown | setKey key down | load program | reset | takeScreen => rfl

/-- **The keys after a run** are what was pressed and released in it. -/
theorem keys_performAll (e : Emulator π) (ops : List Operation) :
    (e.performAll ops).state.machine.keys = e.machine.keys.setAll (presses ops) :=
  Keypad.setAll_iterate (k := fun e : Emulator π => e.machine.keys) keys_perform e ops

/-- **Which keys are down after a run**: those that it pressed and did not release after that, and
those that were down and that it left alone. -/
theorem isDown_performAll (e : Emulator π) (ops : List Operation) (key : UInt8) :
    (e.performAll ops).state.machine.keys.isDown key
      = (Keypad.isKey key && (Keypad.last? (presses ops) key).getD (e.machine.keys.isDown key)) := by
  rw [keys_performAll, Keypad.isDown_setAll]

end Emulator

end Chip8
