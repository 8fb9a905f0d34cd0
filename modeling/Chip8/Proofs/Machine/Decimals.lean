/-
# Decimal digits

`FX33` stores the hundreds, the tens and the units of VX at the index and at the two addresses after
it, and `F265` loads what is there into V0, V1 and V2.  Any of the three addresses may be past the
end of memory, where nothing is stored and zero is loaded.

* `digit` gives the digits of a number; `eq_of_digits` puts three of them together again.
* `DigitsStored` says what the first instruction leaves, for each address, and `DigitsLoaded` what
  the second makes of it, for each register.
* `digitsLoaded_of_stored` compares the two and mentions no instruction.  It allows for anything in
  between that keeps memory and the index.
-/
import Mathlib
import Chip8.Proofs.Machine.Transfers

namespace Chip8

/-! ## 1. Digits -/

/-- A digit of a number below a thousand: at place 0 the hundreds, at 1 the tens, at 2 the units. -/
def digit (n place : Nat) : Nat := n / 10 ^ (2 - place) % 10

theorem digit_lt (n place : Nat) : digit n place < 10 := Nat.mod_lt _ (by decide)

/-- **Three digits make up a number.** -/
theorem eq_of_digits {n : Nat} (h : n < 1000) :
    100 * digit n 0 + 10 * digit n 1 + digit n 2 = n := by
  simp only [digit, Nat.sub_zero, Nat.sub_self, Nat.reduceSub, Nat.reducePow]
  omega

/-- The bytes that stand for the digits of a byte. -/
theorem getElem?_decimalDigits (byte : UInt8) {k : Nat} (hk : k ≤ 2) :
    ∃ d, (decimalDigits byte)[k]? = some d ∧ d.toNat = digit byte.toNat k := by
  have hbyte := byte.toNat_lt
  obtain rfl | rfl | rfl : k = 0 ∨ k = 1 ∨ k = 2 := by omega
  · refine ⟨byte / 100, rfl, ?_⟩
    have hundred : (100 : UInt8).toNat = 100 := rfl
    rw [digit, UInt8.toNat_div, hundred]
    omega
  · refine ⟨byte / 10 % 10, rfl, ?_⟩
    rw [digit, UInt8.toNat_mod, UInt8.toNat_div]
    rfl
  · refine ⟨byte % 10, rfl, ?_⟩
    rw [digit, UInt8.toNat_mod, Nat.sub_self, Nat.pow_zero, Nat.div_one]
    rfl

namespace Machine

variable {x : Register}

/-! ## 2. Storing them -/

/-- What it means that a machine `m` became `m'` by storing the digits of VX. -/
structure DigitsStored (m : Machine) (x : Register) (m' : Machine) : Prop where
  /-- The addresses up to the last one of memory have the digits. -/
  within : ∀ k ≤ 2, m.index.toNat + k ≤ 0xFFF →
    (m'.memory.read (m.index.toNat + k)).toNat = digit (m.v.get x).toNat k
  /-- No other byte changes. -/
  elsewhere : ∀ a : Nat, ¬ (m.index.toNat ≤ a ∧ a ≤ min (m.index.toNat + 2) 0xFFF) →
    m'.memory.read a = m.memory.read a
  /-- Nor does anything else, the index included. -/
  rest : m' = { m with memory := m'.memory, pc := m.pc + 2 }

/-- **`FX33`** stores the digits of VX. -/
theorem achieves_storeDecimal (m : Machine) (x : Register) :
    m.Achieves (.storeDecimal x) (m.DigitsStored x) := by
  have hlength : (m.written (.storeDecimal x)).length = 2 + 1 := rfl
  refine achieves_of_execute fun byte => ⟨_, rfl, ?_, ?_, rfl⟩
  · intro k hk hend
    obtain ⟨d, hd, hvalue⟩ := getElem?_decimalDigits (m.v.get x) hk
    rw [← hvalue]
    exact congrArg UInt8.toNat (Memory.read_store_of_getElem? hd hend)
  · intro a ha
    exact Memory.read_store_of_outside hlength ha

theorem DigitsStored.index_eq {m m' : Machine} (h : m.DigitsStored x m') : m'.index = m.index := by
  rw [h.rest]

/-! ## 3. Loading them -/

/-- What it means that a machine `m₂` became `m₃` by loading the digits that VX had in `m`. -/
structure DigitsLoaded (m : Machine) (x : Register) (m₂ m₃ : Machine) : Prop where
  /-- V0, V1 and V2 have the digits whose addresses are in memory, -/
  within : ∀ k : Register, k ≤ 2 → m.index.toNat + k.val ≤ 0xFFF →
    (m₃.v.get k).toNat = digit (m.v.get x).toNat k.val
  /-- and zero for any other. -/
  beyond : ∀ k : Register, k ≤ 2 → 0xFFF < m.index.toNat + k.val → m₃.v.get k = 0
  /-- Where there is room for all three they are decimal digits, -/
  decimal : m.index.toNat ≤ 0xFFD → ∀ k : Register, k ≤ 2 → (m₃.v.get k).toNat < 10
  /-- and together they are the number that was in VX, be it one of the three registers. -/
  value : m.index.toNat ≤ 0xFFD →
    100 * (m₃.v.get 0).toNat + 10 * (m₃.v.get 1).toNat + (m₃.v.get 2).toNat = (m.v.get x).toNat
  /-- The registers above V2 do not change. -/
  above : ∀ k : Register, 2 < k → m₃.v.get k = m₂.v.get k
  /-- The digits are all that is new in memory. -/
  memory : ∀ a : Nat, ¬ (m.index.toNat ≤ a ∧ a ≤ min (m.index.toNat + 2) 0xFFF) →
    m₃.memory.read a = m.memory.read a

/-- **A load finds the digits that were stored**, if the index is what it was at the store and
memory what it was after it. -/
theorem digitsLoaded_of_stored {m m₁ m₂ m₃ : Machine} (hstored : m.DigitsStored x m₁)
    (hindex : m₂.index = m.index) (hmemory : m₂.memory = m₁.memory) (hloaded : m₂.Loaded 2 m₃) :
    m.DigitsLoaded x m₂ m₃ := by
  have hbyte : ∀ k : Register, k ≤ 2 → m₃.v.get k = m₁.memory.read (m.index.toNat + k.val) := by
    intro k hk
    rw [hloaded.loaded k hk, hindex, hmemory]
  have hwithin : ∀ k : Register, k ≤ 2 → m.index.toNat + k.val ≤ 0xFFF →
      (m₃.v.get k).toNat = digit (m.v.get x).toNat k.val := by
    intro k hk hend
    rw [hbyte k hk, hstored.within k.val hk hend]
  have hroom : m.index.toNat ≤ 0xFFD → ∀ k : Register, k ≤ 2 →
      (m₃.v.get k).toNat = digit (m.v.get x).toNat k.val := by
    intro hend k hk
    have hk' : k.val ≤ 2 := hk
    exact hwithin k hk (by omega)
  refine ⟨hwithin, ?_, ?_, ?_, hloaded.above, ?_⟩
  · intro k hk hend
    rw [hbyte k hk]
    exact Memory.read_of_size_le (Nat.succ_le_of_lt hend)
  · intro hend k hk
    rw [hroom hend k hk]
    exact digit_lt ..
  · intro hend
    have hsmall : (m.v.get x).toNat < 1000 := Nat.lt_trans (m.v.get x).toNat_lt (by decide)
    rw [hroom hend 0 (by decide), hroom hend 1 (by decide), hroom hend 2 (by decide)]
    exact eq_of_digits hsmall
  · intro a ha
    rw [hloaded.memory_eq, hmemory]
    exact hstored.elsewhere a ha

/-- A store of the digits, then a load from the same place. -/
theorem achieves_digits (m : Machine) (x : Register) :
    m.Achieves (.storeDecimal x) fun m₁ =>
      ∀ m₂ : Machine, m₂.index = m.index → m₂.memory = m₁.memory →
        m₂.Achieves (.loadRegisters 2) (m.DigitsLoaded x m₂) := by
  refine (m.achieves_storeDecimal x).mono fun m₁ hstored m₂ hindex hmemory => ?_
  refine (m₂.achieves_loadRegisters 2).mono fun m₃ hloaded => ?_
  exact digitsLoaded_of_stored hstored hindex hmemory hloaded

end Machine

/-! ## 4. Programs -/

namespace Emulator

variable {π : Type} [Platform π]

/-- What it means that an emulator can take VX apart into decimal digits. -/
structure TakesApart (e : Emulator π) (x : Register) : Prop where
  stored : e.machine.Achieves (.storeDecimal x) (e.machine.DigitsStored x)
  /-- `F265` right after `FX33` loads the digits. -/
  loaded : e.machine.Achieves (.storeDecimal x) fun m₁ =>
    m₁.Achieves (.loadRegisters 2) (e.machine.DigitsLoaded x m₁)
  /-- A program that comes to `FX33`, then stores nothing, and comes to `F265` with the index where
  it was, has the digits of VX as it was before. -/
  run : decode e.machine.fetch = .ok (.storeDecimal x) →
    ∀ ops, (∀ t ∈ e.tick.state.history ops, t.mayStore = false) →
      let e' := (e.tick.state.performAll ops).state
      e'.machine.index = e.machine.index → decode e'.machine.fetch = .ok (.loadRegisters 2) →
        e'.tick.result = .ok () ∧ e.machine.DigitsLoaded x e'.machine e'.tick.state.machine

/-- **A byte can be taken apart into its decimal digits**, whichever register holds it and wherever
the index points. -/
theorem takesApart (e : Emulator π) (x : Register) : e.TakesApart x := by
  have hdigits := e.machine.achieves_digits x
  refine ⟨e.machine.achieves_storeDecimal x, ?_, ?_⟩
  · refine Machine.achieves_of_execute fun byte => ?_
    obtain ⟨m₁, hexecute, hstored⟩ := (e.machine.achieves_storeDecimal x).execute byte
    obtain ⟨m₁', hexecute', hafter⟩ := hdigits.execute byte
    obtain rfl := Outcome.done.inj (hexecute.symm.trans hexecute')
    exact ⟨m₁, hexecute, hafter m₁ hstored.index_eq rfl⟩
  · intro hstore ops hkeeps e' hindex hload
    obtain ⟨-, hafter⟩ := hdigits.tick e rfl hstore
    obtain ⟨-, hmemory⟩ := memory_of_not_mayStore hkeeps
    exact (hafter e'.machine hindex hmemory).tick e' rfl hload

/-- A program takes V0 = 254 apart at the last address, where there is room for the hundreds only. -/
theorem takesApart_at_last_address :
    let e := ((scripted []).performAll
      [.load [0x60, 0xFE, 0xAF, 0xFF, 0xF0, 0x33, 0xF2, 0x65], .tick, .tick]).state
    e.tick.state.tick.result = .ok () ∧ (e.tick.state.tick.state.machine.v.get 0).toNat = 2 ∧
      e.tick.state.tick.state.machine.v.get 1 = 0 ∧ e.tick.state.tick.state.machine.v.get 2 = 0 := by
  intro e
  obtain ⟨hstore, hindex, hload, hstart, hv⟩ :
      decode e.machine.fetch = .ok (.storeDecimal 0) ∧
      e.tick.state.machine.index = e.machine.index ∧
      decode e.tick.state.machine.fetch = .ok (.loadRegisters 2) ∧
      e.machine.index = 0xFFF ∧ e.machine.v.get 0 = 254 := by
    decide +kernel
  obtain ⟨hresult, hloaded⟩ := (takesApart e 0).run hstore [] nofun hindex hload
  have hindex' : e.machine.index.toNat = 0xFFF := congrArg UInt16.toNat hstart
  have hv' : (e.machine.v.get 0).toNat = 254 := congrArg UInt8.toNat hv
  refine ⟨hresult, ?_, ?_, ?_⟩
  · exact (hloaded.within 0 (by decide) (by rw [hindex']; decide)).trans (by rw [hv']; decide)
  · exact hloaded.beyond 1 (by decide) (by rw [hindex']; decide)
  · exact hloaded.beyond 2 (by decide) (by rw [hindex']; decide)

end Emulator

end Chip8
