/-
# Transfers between registers and memory

`FX55` stores V0 to VX in memory from the index on, and `FX65` loads them from there.  The index
may be any number below 65536, so that some of the addresses, or all, may be past the end of memory.

* `Stored` and `Loaded` say what the two leave, for each address and each register.  Addresses are
  natural numbers: past the end nothing is stored and zero is loaded, and no transfer comes round to
  the start of memory.
* `restored_of_stored` is the round trip: what a store put in memory a load brings back, and zero
  for what did not fit.
* `memory_eq_of_loaded` is the round trip the other way: a load that is stored back changes no byte.
* `savesRegisters` takes the round trip to programs, with anything between the store and the load
  that stores nothing.
-/
import Mathlib.Logic.Basic
import Chip8.Proofs.Machine.Effects

namespace Chip8

/-- The bytes of a slice are those at its addresses. -/
theorem Memory.getElem?_slice (m : Memory) (a : Nat) {n k : Nat} (h : k < n) :
    (m.slice a n)[k]? = some (m.read (a + k)) := by
  rw [slice, List.getElem?_map, List.getElem?_range h]
  rfl

/-- A byte that is stored within memory is at its address. -/
theorem Memory.read_store_of_getElem? {m : Memory} {a k : Nat} {bytes : List UInt8} {byte : UInt8}
    (hbyte : bytes[k]? = some byte) (hend : a + k ≤ 0xFFF) :
    (m.store a bytes).read (a + k) = byte := by
  obtain ⟨hk, -⟩ := List.getElem?_eq_some_iff.mp hbyte
  have hsize : a + k < size := Nat.lt_succ_of_le hend
  rw [read_store, if_pos ⟨by omega, by omega, hsize⟩, Nat.add_sub_cancel_left, hbyte]
  rfl

/-- A store changes no byte before its first address, after its last one or past the end. -/
theorem Memory.read_store_of_outside {m : Memory} {a b n : Nat} {bytes : List UInt8}
    (hlength : bytes.length = n + 1) (h : ¬ (a ≤ b ∧ b ≤ min (a + n) 0xFFF)) :
    (m.store a bytes).read b = m.read b := by
  rw [read_store, if_neg]
  rintro ⟨hle, hlt, hend⟩
  have hend' : b ≤ 0xFFF := Nat.le_of_lt_succ hend
  omega

namespace Machine

variable {x : Register}

/-! ## 1. Storing -/

/-- The index after a transfer of V0 to VX. -/
theorem toNat_movedIndex (m : Machine) (x : Register) :
    (m.movedIndex (x.val + 1)).toNat =
      if m.dialect.transferMovesIndex then (m.index.toNat + x.val + 1) % 65536
      else m.index.toNat := by
  rw [movedIndex]
  split
  · rw [UInt16.toNat_add, UInt16.toNat_ofNat', Nat.add_mod_mod, Nat.add_assoc]
  · rfl

/-- What it means that a machine `m` became `m'` by storing V0 to VX. -/
structure Stored (m : Machine) (x : Register) (m' : Machine) : Prop where
  /-- The addresses up to the last one of memory have the registers. -/
  within : ∀ k : Register, k ≤ x → m.index.toNat + k.val ≤ 0xFFF →
    m'.memory.read (m.index.toNat + k.val) = m.v.get k
  /-- No other byte changes. -/
  elsewhere : ∀ a : Nat, ¬ (m.index.toNat ≤ a ∧ a ≤ min (m.index.toNat + x.val) 0xFFF) →
    m'.memory.read a = m.memory.read a
  index : m'.index.toNat =
    if m.dialect.transferMovesIndex then (m.index.toNat + x.val + 1) % 65536 else m.index.toNat
  rest : m' = { m with memory := m'.memory, index := m'.index, pc := m.pc + 2 }

/-- **`FX55`** stores V0 to VX. -/
theorem achieves_storeRegisters (m : Machine) (x : Register) :
    m.Achieves (.storeRegisters x) (m.Stored x) := by
  have hlength : (m.written (.storeRegisters x)).length = x.val + 1 := m.v.length_upTo x
  refine achieves_of_execute fun byte => ⟨_, rfl, ?_, ?_, m.toNat_movedIndex x, rfl⟩
  · intro k hk hend
    have hbyte : (m.written (.storeRegisters x))[k.val]? = some (m.v.get k) :=
      m.v.getElem?_upTo hk
    exact Memory.read_store_of_getElem? hbyte hend
  · intro a ha
    exact Memory.read_store_of_outside hlength ha

/-! ## 2. Loading -/

/-- What it means that a machine `m` became `m'` by loading V0 to VX. -/
structure Loaded (m : Machine) (x : Register) (m' : Machine) : Prop where
  /-- Each register has the byte at its address, zero past the end. -/
  loaded : ∀ k : Register, k ≤ x → m'.v.get k = m.memory.read (m.index.toNat + k.val)
  /-- The registers above VX do not change. -/
  above : ∀ k : Register, x < k → m'.v.get k = m.v.get k
  index : m'.index.toNat =
    if m.dialect.transferMovesIndex then (m.index.toNat + x.val + 1) % 65536 else m.index.toNat
  /-- Nor does anything else, memory included. -/
  rest : m' = { m with v := m'.v, index := m'.index, pc := m.pc + 2 }

/-- **`FX65`** loads V0 to VX. -/
theorem achieves_loadRegisters (m : Machine) (x : Register) :
    m.Achieves (.loadRegisters x) (m.Loaded x) := by
  have hlength := m.memory.length_slice m.index.toNat (x.val + 1)
  refine achieves_of_execute fun byte => ⟨_, rfl, ?_, ?_, m.toNat_movedIndex x, rfl⟩
  · intro k hk
    have hkx : k.val ≤ x.val := hk
    have hbyte := m.memory.getElem?_slice m.index.toNat (Nat.lt_succ_of_le hkx)
    refine (Registers.get_fill ..).trans ?_
    rw [if_pos ⟨by omega, by omega⟩, Nat.sub_zero, hbyte]
    rfl
  · intro k hk
    have hkx : x.val < k.val := hk
    exact (Registers.get_fill ..).trans (if_neg (by omega))

theorem Loaded.memory_eq {m m' : Machine} (h : m.Loaded x m') : m'.memory = m.memory := by
  rw [h.rest]

/-! ## 3. There and back -/

/-- What it means that a machine `m₂` became `m₃` by loading V0 to VX as they were in `m`. -/
structure Restored (m : Machine) (x : Register) (m₂ m₃ : Machine) : Prop where
  /-- A register whose address is in memory is as it was, -/
  within : ∀ k : Register, k ≤ x → m.index.toNat + k.val ≤ 0xFFF → m₃.v.get k = m.v.get k
  /-- and any other up to VX is zero. -/
  beyond : ∀ k : Register, k ≤ x → 0xFFF < m.index.toNat + k.val → m₃.v.get k = 0
  /-- The registers above VX do not change. -/
  above : ∀ k : Register, x < k → m₃.v.get k = m₂.v.get k
  /-- Nor does memory. -/
  memory : m₃.memory = m₂.memory

/-- **A load brings back what a store put in memory**, if the index is what it was at the store and
memory what it was after it. -/
theorem restored_of_stored {m m₁ m₂ m₃ : Machine} (hstored : m.Stored x m₁)
    (hindex : m₂.index = m.index) (hmemory : m₂.memory = m₁.memory) (hloaded : m₂.Loaded x m₃) :
    m.Restored x m₂ m₃ := by
  have hbyte : ∀ k : Register, k ≤ x → m₃.v.get k = m₁.memory.read (m.index.toNat + k.val) := by
    intro k hk
    rw [hloaded.loaded k hk, hindex, hmemory]
  refine ⟨?_, ?_, hloaded.above, hloaded.memory_eq⟩
  · intro k hk hend
    rw [hbyte k hk, hstored.within k hk hend]
  · intro k hk hend
    rw [hbyte k hk]
    exact Memory.read_of_size_le (Nat.succ_le_of_lt hend)

/-- A store, then a load from the same place. -/
theorem achieves_store_then_load (m : Machine) (x : Register) :
    m.Achieves (.storeRegisters x) fun m₁ =>
      ∀ m₂ : Machine, m₂.index = m.index → m₂.memory = m₁.memory →
        m₂.Achieves (.loadRegisters x) (m.Restored x m₂) := by
  refine (m.achieves_storeRegisters x).mono fun m₁ hstored m₂ hindex hmemory => ?_
  refine (m₂.achieves_loadRegisters x).mono fun m₃ hloaded => ?_
  exact restored_of_stored hstored hindex hmemory hloaded

/-- **A store puts back what a load took from memory.** -/
theorem memory_eq_of_loaded {m m₁ m₂ m₃ : Machine} (hloaded : m.Loaded x m₁)
    (hindex : m₂.index = m.index) (hv : m₂.v = m₁.v) (hmemory : m₂.memory = m₁.memory)
    (hstored : m₂.Stored x m₃) : m₃.memory = m.memory := by
  have hsame : m₂.memory = m.memory := hmemory.trans hloaded.memory_eq
  refine Memory.ext_read fun a ha => ?_
  rw [← hsame]
  by_cases hrun : m₂.index.toNat ≤ a ∧ a ≤ min (m₂.index.toNat + x.val) 0xFFF
  · -- the address is that of a register, and the register has its byte
    obtain ⟨k, hkx, rfl⟩ : ∃ k : Register, k ≤ x ∧ m₂.index.toNat + k.val = a := by
      have hx := x.isLt
      exact ⟨⟨a - m₂.index.toNat, by omega⟩, Fin.le_def.mpr (by dsimp only; omega),
        by dsimp only; omega⟩
    rw [hstored.within k hkx (by omega), hv, hloaded.loaded k hkx, hindex, hsame]
  · exact hstored.elsewhere a hrun

end Machine

/-! ## 4. Programs -/

namespace Emulator

variable {π : Type} [Platform π]

/-- What it means that an emulator can store V0 to VX and load them again. -/
structure SavesRegisters (e : Emulator π) (x : Register) : Prop where
  stored : e.machine.Achieves (.storeRegisters x) (e.machine.Stored x)
  /-- Only memory and the index matter after that: registers that were changed in the meantime are
  brought back all the same. -/
  restored : e.machine.Achieves (.storeRegisters x) fun m₁ =>
    ∀ m₂ : Machine, m₂.index = e.machine.index → m₂.memory = m₁.memory →
      m₂.Achieves (.loadRegisters x) (e.machine.Restored x m₂)
  /-- A program that comes to `FX55`, then stores nothing, and comes to `FX65` with the index put
  back, has VX and those below it restored. -/
  run : decode e.machine.fetch = .ok (.storeRegisters x) →
    ∀ ops, (∀ t ∈ e.tick.state.history ops, t.mayStore = false) →
      let e' := (e.tick.state.performAll ops).state
      e'.machine.index = e.machine.index → decode e'.machine.fetch = .ok (.loadRegisters x) →
        e'.tick.result = .ok () ∧ e.machine.Restored x e'.machine e'.tick.state.machine

/-- **The registers can be saved in memory** wherever the index points, in memory, past its end or
across it, and in either dialect of transfers. -/
theorem savesRegisters (e : Emulator π) (x : Register) : e.SavesRegisters x := by
  have hrestored := e.machine.achieves_store_then_load x
  refine ⟨e.machine.achieves_storeRegisters x, hrestored, ?_⟩
  intro hstore ops hkeeps e' hindex hload
  obtain ⟨-, hafter⟩ := hrestored.tick e rfl hstore
  obtain ⟨-, hmemory⟩ := memory_of_not_mayStore hkeeps
  exact (hafter e'.machine hindex hmemory).tick e' rfl hload

/-- A program stores V0 and V1 at the last address, where there is room for V0 only, and loads them
from there: V0 comes back, and V1 is zero. -/
theorem savesRegisters_at_last_address :
    let e := ((scripted []).performAll
      [.load [0x60, 0x11, 0x61, 0x22, 0xAF, 0xFF, 0xF1, 0x55, 0x60, 0x33, 0xAF, 0xFF, 0xF1, 0x65],
        .tick, .tick, .tick]).state
    let e' := (e.tick.state.performAll [.tick, .tick]).state
    e'.machine.v.get 0 = 0x33 ∧ e'.tick.result = .ok () ∧
      e'.tick.state.machine.v.get 0 = 0x11 ∧ e'.tick.state.machine.v.get 1 = 0 := by
  intro e e'
  obtain ⟨hstore, hkeeps, hchanged, hindex, hload, hstart, hv⟩ :
      decode e.machine.fetch = .ok (.storeRegisters 1) ∧
      (∀ t ∈ e.tick.state.history [.tick, .tick], t.mayStore = false) ∧
      e'.machine.v.get 0 = 0x33 ∧ e'.machine.index = e.machine.index ∧
      decode e'.machine.fetch = .ok (.loadRegisters 1) ∧
      e.machine.index = 0xFFF ∧ e.machine.v.get 0 = 0x11 := by
    decide +kernel
  obtain ⟨hresult, hrestored⟩ := (savesRegisters e 1).run hstore _ hkeeps hindex hload
  have hindex' : e.machine.index.toNat = 0xFFF := congrArg UInt16.toNat hstart
  refine ⟨hchanged, hresult, ?_, ?_⟩
  · rw [← hv]
    exact hrestored.within 0 (by decide) (by rw [hindex']; decide)
  · exact hrestored.beyond 1 (by decide) (by rw [hindex']; decide)

end Emulator

end Chip8
