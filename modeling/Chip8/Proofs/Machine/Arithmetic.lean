/-
# Arithmetic with flags

`8XY4` to `8XY7` and `8XYE` leave a byte in VX and report in VF what the byte does not show, and
`FX1E` does so with the index.  X and Y may be the same register, and either may be F, so it matters
what is read and written first.  Here the outcome is said in numbers, with the registers from
before.

* `Computed` is that outcome: where VX is not VF, both the result and the report are there, and
  where it is, VF holds the result.
* `achieves_combine` is the one step where the registers are read and written; what is left for each
  operation is a fact about bytes.
* `calculates` puts the operations together, with a subtraction that undoes an addition.
-/
import Mathlib.Logic.Basic
import Chip8.Proofs.Machine.Effects

namespace Chip8

namespace Machine

/-! ## 1. Numbers -/

/-- The number in a register. -/
def number (m : Machine) (x : Register) : Int := (m.v.get x).toNat

/-- The register that a shift with the operands X and Y reads. -/
def shiftSource (m : Machine) (x y : Register) : Register := if m.dialect.shiftReadsY then y else x

theorem number_nonneg (m : Machine) (x : Register) : 0 ≤ m.number x := Int.natCast_nonneg _

theorem number_lt (m : Machine) (x : Register) : m.number x < 256 :=
  Int.ofNat_lt.mpr (m.v.get x).toNat_lt

theorem get_eq_of_number_eq {m m' : Machine} {x y : Register} (h : m'.number x = m.number y) :
    m'.v.get x = m.v.get y := UInt8.toNat_inj.mp (Int.ofNat_inj.mp h)

/-- What it means that a machine `m` became `m'` by leaving a result in VX and a report in VF. -/
structure Computed (m : Machine) (x : Register) (result report : Int) (m' : Machine) : Prop where
  /-- The result is in VX, be it VF. -/
  result : m'.number x = result
  /-- The report is in VF, unless the result is there. -/
  report : x ≠ .flag → m'.number .flag = report
  /-- No other register changes. -/
  registers : ∀ z, z ≠ x → z ≠ .flag → m'.v.get z = m.v.get z
  /-- Nor does anything else; the program goes on with the next instruction. -/
  rest : m' = { m with v := m'.v, pc := m.pc + 2 }

/-! ## 2. One operation -/

/-- **An operation computes what `eval` gives for the registers from before**, whichever registers
they are. -/
theorem achieves_combine {m : Machine} {op : Arithmetic} {x y : Register} {value flag : UInt8}
    {result report : Int}
    (h : op.eval m.dialect (m.v.get x) (m.v.get y) = (value, some flag))
    (hvalue : (value.toNat : Int) = result) (hflag : (flag.toNat : Int) = report) :
    m.Achieves (.combine op x y) (m.Computed x result report) := by
  let m' := ((m.put .flag flag).put x value).next
  have hexecute : ∀ byte, m.execute byte (.combine op x y) = .done m' := by
    intro byte
    simp only [execute, h]
    rfl
  have hget : ∀ z, m'.v.get z = if x = z then value else if .flag = z then flag else m.v.get z := by
    intro z
    exact (get_put ..).trans (if_congr Iff.rfl rfl (get_put ..))
  refine achieves_of_execute fun byte => ⟨m', hexecute byte, ?_, ?_, ?_, rfl⟩
  · rw [number, hget, if_pos rfl, hvalue]
  · intro hx
    rw [number, hget, if_neg hx, if_pos rfl, hflag]
  · intro z hz hzflag
    rw [hget, if_neg (Ne.symm hz), if_neg (Ne.symm hzflag)]

/-- A report is one or zero. -/
theorem toNat_flag {p : Prop} [Decidable p] :
    (((if p then 1 else 0 : UInt8).toNat : Nat) : Int) = if p then 1 else 0 := by
  split <;> rfl

theorem achieves_add (m : Machine) (x y : Register) :
    m.Achieves (.combine .add x y) (m.Computed x ((m.number x + m.number y) % 256)
      (if 255 < m.number x + m.number y then 1 else 0)) := by
  refine achieves_combine rfl ?_ ?_
  · rw [UInt8.toNat_add, number, number]
    omega
  · rw [toNat_flag]
    refine if_congr ?_ rfl rfl
    rw [number, number]
    omega

/-- The difference of two bytes, in numbers. -/
theorem toNat_sub_bytes (a b : UInt8) :
    ((a - b).toNat : Int) = ((a.toNat : Int) - b.toNat) % 256 := by
  have ha := a.toNat_lt
  have hb := b.toNat_lt
  rw [UInt8.toNat_sub]
  omega

/-- Whether a difference needs no borrow, in numbers. -/
theorem toNat_noBorrow (a b : UInt8) :
    (((if b ≤ a then 1 else 0 : UInt8).toNat : Nat) : Int)
      = if (b.toNat : Int) ≤ a.toNat then 1 else 0 := by
  rw [toNat_flag]
  exact if_congr (UInt8.le_iff_toNat_le.trans Int.ofNat_le.symm) rfl rfl

theorem achieves_sub (m : Machine) (x y : Register) :
    m.Achieves (.combine .sub x y) (m.Computed x ((m.number x - m.number y) % 256)
      (if m.number y ≤ m.number x then 1 else 0)) :=
  achieves_combine rfl (toNat_sub_bytes _ _) (toNat_noBorrow _ _)

theorem achieves_subFrom (m : Machine) (x y : Register) :
    m.Achieves (.combine .subFrom x y) (m.Computed x ((m.number y - m.number x) % 256)
      (if m.number x ≤ m.number y then 1 else 0)) :=
  achieves_combine rfl (toNat_sub_bytes _ _) (toNat_noBorrow _ _)

theorem number_shiftSource (m : Machine) (x y : Register) :
    m.number (m.shiftSource x y)
      = ((if m.dialect.shiftReadsY then m.v.get y else m.v.get x : UInt8).toNat : Int) := by
  rw [number, shiftSource]
  split <;> rfl

theorem achieves_shiftRight (m : Machine) (x y : Register) :
    m.Achieves (.combine .shiftRight x y) (m.Computed x (m.number (m.shiftSource x y) / 2)
      (m.number (m.shiftSource x y) % 2)) := by
  refine achieves_combine rfl ?_ ?_
  · rw [number_shiftSource, UInt8.toNat_div]
    rfl
  · rw [number_shiftSource, UInt8.toNat_mod]
    rfl

theorem achieves_shiftLeft (m : Machine) (x y : Register) :
    m.Achieves (.combine .shiftLeft x y) (m.Computed x (2 * m.number (m.shiftSource x y) % 256)
      (m.number (m.shiftSource x y) / 128)) := by
  refine achieves_combine rfl ?_ ?_
  · have hdouble : ∀ s : UInt8, (s * 2).toNat = s.toNat * 2 % 256 := fun s => UInt8.toNat_mul s 2
    rw [number_shiftSource, hdouble]
    omega
  · rw [number_shiftSource, UInt8.toNat_div]
    rfl

/-! ## 3. The index -/

/-- What it means that a machine `m` became `m'` by adding VX to the index. -/
structure IndexAdded (m : Machine) (x : Register) (m' : Machine) : Prop where
  index : (m'.index.toNat : Int) = (m.index.toNat + m.number x) % 65536
  /-- VF tells whether the sum is past the last address, also where VX is VF. -/
  report : m'.number .flag = if 0xFFF < m.index.toNat + m.number x then 1 else 0
  registers : ∀ z, z ≠ .flag → m'.v.get z = m.v.get z
  rest : m' = { m with v := m'.v, index := m'.index, pc := m.pc + 2 }

theorem achieves_addIndex (m : Machine) (x : Register) :
    m.Achieves (.addIndex x) (m.IndexAdded x) := by
  refine achieves_of_execute fun byte => ⟨_, rfl, ?_, ?_, ?_, rfl⟩
  · show ((UInt16.ofNat (m.index.toNat + (m.v.get x).toNat)).toNat : Int) = _
    rw [UInt16.toNat_ofNat', number]
    omega
  · show (((m.put .flag _).v.get .flag).toNat : Int) = _
    rw [get_put, if_pos rfl, toNat_flag]
    refine if_congr ?_ rfl rfl
    rw [number]
    omega
  · intro z hz
    exact get_put_of_ne _ hz

/-! ## 4. All operations -/

/-- **A subtraction undoes an addition** of a register to another one, and reports the opposite of
what the addition reported. -/
theorem achieves_sub_of_computed_add {m m₁ : Machine} {x y : Register} (hxy : x ≠ y)
    (hx : x ≠ .flag) (hy : y ≠ .flag)
    (h : m.Computed x ((m.number x + m.number y) % 256)
      (if 255 < m.number x + m.number y then 1 else 0) m₁) :
    m₁.Achieves (.combine .sub x y) fun m₂ => m₂.v.get x = m.v.get x ∧
      m₂.number .flag = 1 - if 255 < m.number x + m.number y then 1 else 0 := by
  have ha := m.number_nonneg x
  have ha' := m.number_lt x
  have hb := m.number_nonneg y
  have hb' := m.number_lt y
  have hresult := h.result
  have hy₁ : m₁.number y = m.number y := by
    rw [number, h.registers y (Ne.symm hxy) hy, number]
  refine (achieves_sub m₁ x y).mono fun m₂ h₂ => ⟨get_eq_of_number_eq ?_, ?_⟩
  · rw [h₂.result]
    omega
  · rw [h₂.report hx]
    -- a carry is a borrow the other way
    by_cases hcarry : 255 < m.number x + m.number y
    · rw [if_pos hcarry, if_neg (by omega)]
      rfl
    · rw [if_neg hcarry, if_pos (by omega)]
      rfl

/-- What it means that a machine calculates with the registers X and Y as it should. -/
structure Calculates (m : Machine) (x y : Register) : Prop where
  /-- `8XY4` reports a carry. -/
  add : m.Achieves (.combine .add x y) (m.Computed x ((m.number x + m.number y) % 256)
    (if 255 < m.number x + m.number y then 1 else 0))
  /-- `8XY5` reports that there is no borrow, -/
  sub : m.Achieves (.combine .sub x y) (m.Computed x ((m.number x - m.number y) % 256)
    (if m.number y ≤ m.number x then 1 else 0))
  /-- and so does `8XY7`, with the registers the other way round. -/
  subFrom : m.Achieves (.combine .subFrom x y) (m.Computed x ((m.number y - m.number x) % 256)
    (if m.number x ≤ m.number y then 1 else 0))
  /-- `8XY6` reports the lowest bit, -/
  shiftRight : m.Achieves (.combine .shiftRight x y)
    (m.Computed x (m.number (m.shiftSource x y) / 2) (m.number (m.shiftSource x y) % 2))
  /-- and `8XYE` the highest. -/
  shiftLeft : m.Achieves (.combine .shiftLeft x y)
    (m.Computed x (2 * m.number (m.shiftSource x y) % 256) (m.number (m.shiftSource x y) / 128))
  /-- `FX1E` adds to the index. -/
  addIndex : m.Achieves (.addIndex x) (m.IndexAdded x)
  /-- If X, Y and F differ, then `8XY4` followed by `8XY5` leaves VX as it was, and in VF one minus
  the carry of the addition. -/
  undone : x ≠ y → x ≠ .flag → y ≠ .flag →
    m.Achieves (.combine .add x y) fun m₁ => m₁.Achieves (.combine .sub x y) fun m₂ =>
      m₂.v.get x = m.v.get x ∧
        m₂.number .flag = 1 - if 255 < m.number x + m.number y then 1 else 0

/-- **Arithmetic with flags**, in every state of the machine and for all registers, the same one
twice or VF included. -/
theorem calculates (m : Machine) (x y : Register) : m.Calculates x y where
  add := m.achieves_add x y
  sub := m.achieves_sub x y
  subFrom := m.achieves_subFrom x y
  shiftRight := m.achieves_shiftRight x y
  shiftLeft := m.achieves_shiftLeft x y
  addIndex := m.achieves_addIndex x
  undone := fun hxy hx hy =>
    (m.achieves_add x y).mono fun _ h => achieves_sub_of_computed_add hxy hx hy h

end Machine

end Chip8
