/-
# The footprint of an instruction

What a word may change.  For every part of the machine but the program counter, `Machine.Footprint`
lists the words whose instructions change it, and where they do; a part that changed says which of
these words was executed.

* Which instructions touch which part is settled for the instructions themselves: `Writes`,
  `movesIndex`, `stores` and `draws` are tables over them, the timers have their setters, and the
  call stack has `callers`.
* `Word.of_writes` and its neighbours read those tables as statements about the digits of the word.
* `footprint_of_execute` puts them together, and `Emulator.footprint` is that for executions and for
  ticks.
-/
import Chip8.Proofs.Machine.Display
import Chip8.Proofs.Machine.Timers

namespace Chip8

/-! ## 1. The words of a table -/

namespace Word

/-- Whether a word is `FX` with two given digits after it. -/
def IsDevice (w : UInt16) (digits : Nat) : Prop := family w = 0xF ∧ (nn w).toNat = digits

/-- Whether a word reports something in VF: `8XY4`, `8XY5`, `8XY6`, `8XY7`, `8XYE`, `DXYN` and
`FX1E`. -/
def Reports (w : UInt16) : Prop :=
  (family w = 0x8 ∧ (n w).val ∈ [0x4, 0x5, 0x6, 0x7, 0xE]) ∨ family w = 0xD ∨ IsDevice w 0x1E

/-- Whether a word puts a byte in VX: `6XNN`, `7XNN`, `8XY?`, `CXNN`, `FX07` and `FX0A`. -/
def Computes (w : UInt16) : Prop :=
  family w ∈ [0x6, 0x7, 0x8, 0xC] ∨ IsDevice w 0x07 ∨ IsDevice w 0x0A

section Decoded

variable {w : UInt16} {i : Instruction} (h : decode w = .ok i)

include h

/-- An instruction of the family `F` comes from a word with its digits, and with its X. -/
theorem isDevice_of_decode (x : Register) (digits : Nat) (hdigits : digits < 256)
    (hi : Instruction.ofDevice? x digits = some i) : IsDevice w digits ∧ Word.x w = x := by
  obtain ⟨hreads, hencode⟩ := Instruction.encode_of_ofDevice? hi
  obtain rfl := (eq_of_decode h hreads).trans hencode
  obtain ⟨hfamily, hx, hnn⟩ :=
    Instruction.fields_wordXNN (f := 0xF) (by decide) x (UInt8.ofNat digits)
  refine ⟨⟨hfamily, ?_⟩, hx⟩
  rw [hnn, UInt8.toNat_ofNat_of_lt' hdigits]

/-- The first digit of an instruction that is written with a register and a byte. -/
theorem family_of_wordXNN {f : Nat} {x : Register} {byte : UInt8} (hf : f < 16)
    (hreads : i.ignoresLastDigit = false) (hencode : i.encode = Instruction.wordXNN f x byte) :
    family w = f ∧ Word.x w = x := by
  obtain rfl := (eq_of_decode h hreads).trans hencode
  obtain ⟨hfamily, hx, -⟩ := Instruction.fields_wordXNN hf x byte
  exact ⟨hfamily, hx⟩

/-- **The words that write a register.** -/
theorem of_writes {z : Register} (hz : i.Writes z) :
    (z = x w ∧ Computes w) ∨ (z = .flag ∧ Reports w) ∨ (IsDevice w 0x65 ∧ z ≤ x w) := by
  cases i with
  | setByte x b =>
    obtain ⟨hfamily, rfl⟩ := family_of_wordXNN h (f := 0x6) (by decide) rfl rfl
    exact Or.inl ⟨hz, Or.inl (by simp [hfamily])⟩
  | addByte x b =>
    obtain ⟨hfamily, rfl⟩ := family_of_wordXNN h (f := 0x7) (by decide) rfl rfl
    exact Or.inl ⟨hz, Or.inl (by simp [hfamily])⟩
  | random x mask =>
    obtain ⟨hfamily, rfl⟩ := family_of_wordXNN h (f := 0xC) (by decide) rfl rfl
    exact Or.inl ⟨hz, Or.inl (by simp [hfamily])⟩
  | combine op x y =>
    obtain ⟨hfamily, hn, rfl, -⟩ := decode_eq_combine_iff.mp h
    rcases hz with hx | ⟨hop, hflag⟩
    · exact Or.inl ⟨hx, Or.inl (by simp [hfamily])⟩
    · refine Or.inr (Or.inl ⟨hflag, Or.inl ⟨hfamily, ?_⟩⟩)
      rw [hn]
      cases op with
      | add | sub | shiftRight | subFrom | shiftLeft => decide
      | copy | or | and | xor => cases hop
  | readDelay x =>
    obtain ⟨hdevice, rfl⟩ := isDevice_of_decode h x 0x07 (by decide) rfl
    exact Or.inl ⟨hz, Or.inr (Or.inl hdevice)⟩
  | waitKey x =>
    obtain ⟨hdevice, rfl⟩ := isDevice_of_decode h x 0x0A (by decide) rfl
    exact Or.inl ⟨hz, Or.inr (Or.inr hdevice)⟩
  | draw x y rows =>
    exact Or.inr (Or.inl ⟨hz, Or.inr (Or.inl (decode_eq_draw_iff.mp h).1)⟩)
  | addIndex x =>
    obtain ⟨hdevice, -⟩ := isDevice_of_decode h x 0x1E (by decide) rfl
    exact Or.inr (Or.inl ⟨hz, Or.inr (Or.inr hdevice)⟩)
  | loadRegisters x =>
    obtain ⟨hdevice, rfl⟩ := isDevice_of_decode h x 0x65 (by decide) rfl
    exact Or.inr (Or.inr ⟨hdevice, hz⟩)
  | _ => exact hz.elim

/-- **The words that move the index.** -/
theorem of_movesIndex {d : Dialect} (hmoves : i.movesIndex d = true) :
    family w = 0xA ∨ IsDevice w 0x1E ∨ IsDevice w 0x29 ∨
      (d.transferMovesIndex = true ∧ (IsDevice w 0x55 ∨ IsDevice w 0x65)) := by
  cases i with
  | setIndex target =>
    have hword : w.toNat = 0xA * 4096 + target.val := by
      rw [eq_of_decode h rfl, Instruction.encode, Instruction.toNat_word (by decide) target.isLt]
    have htarget := target.isLt
    refine Or.inl ?_
    rw [family]
    omega
  | addIndex x =>
    exact Or.inr (Or.inl (isDevice_of_decode h x _ (by decide) rfl).1)
  | pointGlyph x =>
    exact Or.inr (Or.inr (Or.inl (isDevice_of_decode h x _ (by decide) rfl).1))
  | storeRegisters x =>
    have hdevice := (isDevice_of_decode h x 0x55 (by decide) rfl).1
    exact Or.inr (Or.inr (Or.inr ⟨hmoves, Or.inl hdevice⟩))
  | loadRegisters x =>
    have hdevice := (isDevice_of_decode h x 0x65 (by decide) rfl).1
    exact Or.inr (Or.inr (Or.inr ⟨hmoves, Or.inr hdevice⟩))
  | _ => cases hmoves

/-- **The words that draw.** -/
theorem of_draws (hdraws : i.draws = true) : w = 0x00E0 ∨ family w = 0xD := by
  cases i with
  | clear => exact Or.inl (decode_eq_clear_iff.mp h)
  | draw x y rows => exact Or.inr (decode_eq_draw_iff.mp h).1
  | _ => cases hdraws

end Decoded

end Word

namespace Machine

/-! ## 2. The footprint -/

/-- What it means that a machine `m` became `m'` by changing only what a word may change. -/
structure Footprint (m : Machine) (w : UInt16) (m' : Machine) : Prop where
  /-- Bytes of memory change under `FX33`, the three from I on, and under `FX55`, those from I to
  I + X; no other byte does. -/
  memory : ∀ a, m'.memory.read a ≠ m.memory.read a →
    (Word.IsDevice w 0x33 ∧ m.index.toNat ≤ a ∧ a ≤ m.index.toNat + 2) ∨
      (Word.IsDevice w 0x55 ∧ m.index.toNat ≤ a ∧ a ≤ m.index.toNat + (Word.x w).val)
  /-- The screen and its mark change under `00E0` and `DXYN`. -/
  display : m'.screen ≠ m.screen ∨ m'.redraw ≠ m.redraw → w = 0x00E0 ∨ Word.family w = 0xD
  /-- The call stack changes under `2NNN` and `00EE`. -/
  stack : m'.stack ≠ m.stack → Word.family w = 0x2 ∨ w = 0x00EE
  /-- The delay timer changes under `FX15`. -/
  delay : m'.delay ≠ m.delay → Word.IsDevice w 0x15
  /-- The sound timer changes under `FX18`. -/
  sound : m'.sound ≠ m.sound → Word.IsDevice w 0x18
  /-- The index changes under `ANNN`, `FX1E` and `FX29`, and where transfers move it also under
  `FX55` and `FX65`. -/
  index : m'.index ≠ m.index →
    Word.family w = 0xA ∨ Word.IsDevice w 0x1E ∨ Word.IsDevice w 0x29 ∨
      (m.dialect.transferMovesIndex = true ∧ (Word.IsDevice w 0x55 ∨ Word.IsDevice w 0x65))
  /-- A register other than VX changes as VF, under a word that reports there, or as one of V0 to VX
  under `FX65`. -/
  others : ∀ z, z ≠ Word.x w → m'.v.get z ≠ m.v.get z →
    (z = .flag ∧ Word.Reports w) ∨ (Word.IsDevice w 0x65 ∧ z ≤ Word.x w)
  /-- VX changes under a word that puts a byte there, under `FX65`, or as VF. -/
  target : m'.v.get (Word.x w) ≠ m.v.get (Word.x w) →
    Word.Computes w ∨ Word.IsDevice w 0x65 ∨ (Word.x w = .flag ∧ Word.Reports w)
  /-- The keys and the dialect never change. -/
  keys : m'.keys = m.keys
  dialect : m'.dialect = m.dialect

theorem lt_of_read_store_ne {memory : Memory} {a b : Nat} {bytes : List UInt8}
    (h : (memory.store a bytes).read b ≠ memory.read b) : a ≤ b ∧ b < a + bytes.length := by
  rw [Memory.read_store] at h
  by_contra hout
  exact h (if_neg fun hin => hout ⟨hin.1, hin.2.1⟩)

/-- An instruction that took effect was not refused. -/
theorem refusal_of_execute {m m' : Machine} {byte : UInt8} {i : Instruction}
    (h : m.execute byte i = .done m') : m.refusal? i = none := by
  cases hrefusal : m.refusal? i with
  | none => rfl
  | some s =>
    rw [execute_of_refused byte hrefusal] at h
    cases h

section Executed

variable {m m' : Machine} {byte : UInt8} {w : UInt16} {i : Instruction}

/-- Where a byte of memory changes. -/
theorem stored_of_read_ne {a : Nat} (hdecode : decode w = .ok i)
    (h : (m.changed i).memory.read a ≠ m.memory.read a) :
    (Word.IsDevice w 0x33 ∧ m.index.toNat ≤ a ∧ a ≤ m.index.toNat + 2) ∨
      (Word.IsDevice w 0x55 ∧ m.index.toNat ≤ a ∧ a ≤ m.index.toNat + (Word.x w).val) := by
  cases i with
  | storeDecimal x =>
    obtain ⟨hle, hlt⟩ := lt_of_read_store_ne h
    refine Or.inl ⟨(Word.isDevice_of_decode hdecode x _ (by decide) rfl).1, hle, ?_⟩
    exact Nat.le_of_lt_succ hlt
  | storeRegisters x =>
    obtain ⟨hdevice, hx⟩ :=
      Word.isDevice_of_decode hdecode x 0x55 (by decide) rfl
    obtain ⟨hle, hlt⟩ := lt_of_read_store_ne h
    refine Or.inr ⟨hdevice, hle, ?_⟩
    rw [written, Registers.length_upTo] at hlt
    rw [hx]
    omega
  | _ => exact absurd rfl h

/-- Where the call stack changes. -/
theorem calls_of_stack_ne (hdecode : decode w = .ok i) (h : m.execute byte i = .done m')
    (hstack : m'.stack ≠ m.stack) : Word.family w = 0x2 ∨ w = 0x00EE := by
  obtain ⟨m₁, hdone, -, hcallers⟩ := execute_of_accepted byte (refusal_of_execute h)
  obtain rfl := Outcome.done.inj (h.symm.trans hdone)
  rw [hcallers] at hstack
  cases i with
  | call target => exact Or.inl (decode_eq_call_iff.mp hdecode).1
  | ret => exact Or.inr (decode_eq_ret_iff.mp hdecode)
  | _ => exact absurd rfl hstack

/-- **An instruction changes only what its word may change.** -/
theorem footprint_of_execute (hdecode : decode w = .ok i) (h : m.execute byte i = .done m') :
    m.Footprint w m' := by
  have hmachine : (m.execute byte i).machine = m' := congrArg Outcome.machine h
  have hwrites : ∀ z, m'.v.get z ≠ m.v.get z → i.Writes z := by
    intro z hz
    by_contra hnot
    exact hz (hmachine ▸ m.get_execute_of_not_writes byte hnot)
  have htimer : ∀ t, m'.timer t ≠ m.timer t → ∃ x, i = t.setter x := by
    intro t ht
    by_contra hnot
    exact ht (hmachine ▸ m.timer_execute byte fun x hx => hnot ⟨x, hx⟩)
  have hsurroundings : m'.surroundings = m.changed i := hmachine ▸ m.surroundings_execute byte i
  refine ⟨?_, ?_, calls_of_stack_ne hdecode h, ?_, ?_, ?_, ?_, ?_, ?_, ?_⟩
  · intro a ha
    have hmemory : m'.surroundings.memory = (m.changed i).memory := congrArg memory hsurroundings
    exact stored_of_read_ne hdecode (hmemory ▸ ha)
  · intro hdisplay
    refine Word.of_draws hdecode ?_
    by_contra hdraws
    have hsame := hmachine ▸ m.display_execute byte (Bool.eq_false_iff.mpr hdraws)
    obtain ⟨hscreen, hredraw⟩ := Prod.mk.inj hsame
    exact hdisplay.elim (· hscreen) (· hredraw)
  · intro hdelay
    obtain ⟨x, rfl⟩ := htimer .delay hdelay
    exact (Word.isDevice_of_decode hdecode x _ (by decide) rfl).1
  · intro hsound
    obtain ⟨x, rfl⟩ := htimer .sound hsound
    exact (Word.isDevice_of_decode hdecode x _ (by decide) rfl).1
  · intro hindex
    refine Word.of_movesIndex hdecode ?_
    by_contra hmoves
    exact hindex (hmachine ▸ m.index_execute_of_not_moves byte (Bool.eq_false_iff.mpr hmoves))
  · intro z hz hchanged
    rcases Word.of_writes hdecode (hwrites z hchanged) with ⟨hx, -⟩ | hreports | hloads
    · exact absurd hx hz
    · exact Or.inl hreports
    · exact Or.inr hloads
  · intro hchanged
    rcases Word.of_writes hdecode (hwrites _ hchanged) with ⟨-, hcomputes⟩ | hreports | hloads
    · exact Or.inl hcomputes
    · exact Or.inr (Or.inr hreports)
    · exact Or.inr (Or.inl hloads.1)
  · exact hmachine ▸ m.keys_execute byte i
  · exact hmachine ▸ m.dialect_execute byte i

end Executed

end Machine

namespace Emulator

variable {π : Type} [Platform π]

/-- **What a word may change**, in every state of the machine: it bounds what executing its
instruction changes, and what a tick changes that takes effect. -/
theorem footprint (e : Emulator π) :
    (∀ w i byte m', decode w = .ok i → e.machine.execute byte i = .done m' →
      e.machine.Footprint w m') ∧
    (e.tick.result = .ok () → e.machine.Footprint e.machine.fetch e.tick.state.machine) := by
  refine ⟨fun w i byte m' hdecode h => Machine.footprint_of_execute hdecode h, ?_⟩
  intro hresult
  obtain ⟨i, m', hdecode, -, hstep, -⟩ :=
    Machine.step_of_no_obstacle e.supply.1 (result_tick_eq_ok_iff.mp hresult)
  have hmachine : e.tick.state.machine = m' := congrArg Outcome.machine hstep
  have hexecute : e.machine.execute e.supply.1 i = .done m' := by
    rwa [Machine.step, hdecode] at hstep
  rw [hmachine]
  exact Machine.footprint_of_execute hdecode hexecute

/-- In the word `DFF1` both coordinates are VF, which changes as the register that reports. -/
theorem footprint_flag_as_coordinate :
    let e := ((scripted []).performAll [.load [0x6F, 0x05, 0xDF, 0xF1], .tick]).state
    e.tick.result = .ok () ∧ e.machine.Footprint 0xDFF1 e.tick.state.machine ∧
      e.tick.state.machine.v.get (Word.x 0xDFF1) ≠ e.machine.v.get (Word.x 0xDFF1) := by
  intro e
  obtain ⟨hresult, hfetch, hchanged⟩ : e.tick.result = .ok () ∧ e.machine.fetch = 0xDFF1 ∧
      e.tick.state.machine.v.get (Word.x 0xDFF1) ≠ e.machine.v.get (Word.x 0xDFF1) := by
    decide +kernel
  have hfootprint := (footprint e).2 hresult
  rw [hfetch] at hfootprint
  exact ⟨hresult, hfootprint, hchanged⟩

end Emulator

end Chip8
