/-
# Registers

The sixteen byte registers V0 to VF.  `Registers.get` is the view: two register files that agree
on every register are equal (`Registers.ext_get`).
-/
import Chip8.Instruction.Basic

namespace Chip8

/-- The contents of the sixteen registers. -/
@[ext]
structure Registers where
  cells : Vector UInt8 16
deriving DecidableEq

namespace Registers

/-- Every register zero. -/
def zero : Registers := ⟨Vector.replicate 16 0⟩

/-- The contents of a register. -/
def get (v : Registers) (x : Register) : UInt8 := v.cells[x]

/-- Stores a byte in a register. -/
def set (v : Registers) (x : Register) (byte : UInt8) : Registers := ⟨v.cells.set x byte⟩

theorem ext_get {v w : Registers} (h : ∀ x, v.get x = w.get x) : v = w := by
  refine Registers.ext (Vector.ext fun k hk => ?_)
  exact h ⟨k, hk⟩

@[simp] theorem get_zero (x : Register) : zero.get x = 0 := by
  simp [get, zero]

theorem get_set (v : Registers) (x y : Register) (byte : UInt8) :
    (v.set x byte).get y = if x = y then byte else v.get y := by
  simp [get, set, Vector.getElem_set, Fin.ext_iff]

@[simp] theorem get_set_self (v : Registers) (x : Register) (byte : UInt8) :
    (v.set x byte).get x = byte := by
  simp [get_set]

/-- The contents of V0 to VX, in order. -/
def upTo (v : Registers) (x : Register) : List UInt8 := v.cells.toList.take (x.val + 1)

@[simp] theorem length_upTo (v : Registers) (x : Register) : (v.upTo x).length = x.val + 1 := by
  have hx := x.isLt
  rw [upTo, List.length_take, Vector.length_toList]
  omega

/-- Stores bytes in consecutive registers from V`k` on; bytes past VF are dropped. -/
def fill (v : Registers) (k : Nat) : List UInt8 → Registers
  | [] => v
  | byte :: rest => fill ⟨v.cells.setIfInBounds k byte⟩ (k + 1) rest

/-- The bytes of V0 to VX are those of the registers up to VX. -/
theorem getElem?_upTo (v : Registers) {x z : Register} (h : z ≤ x) :
    (v.upTo x)[z.val]? = some (v.get z) := by
  have hz : z.val < x.val + 1 := Nat.lt_succ_of_le h
  rw [upTo, List.getElem?_take_of_lt hz, Vector.getElem?_toList, Vector.getElem?_eq_getElem z.isLt]
  rfl

/-- Filling gives each register of the run its byte; any other keeps the one it had. -/
theorem get_fill (v : Registers) (k : Nat) (bytes : List UInt8) (z : Register) :
    (v.fill k bytes).get z =
      if k ≤ z.val ∧ z.val < k + bytes.length then bytes[z.val - k]?.getD 0 else v.get z := by
  induction bytes generalizing v k with
  | nil =>
    have h : ¬ (k ≤ z.val ∧ z.val < k + 0) := by omega
    simp only [fill, List.length_nil, if_neg h]
  | cons byte rest ih =>
    rw [fill, ih]
    simp only [List.length_cons]
    by_cases hz : z.val = k
    · have hlater : ¬ (k + 1 ≤ z.val ∧ z.val < k + 1 + rest.length) := by omega
      rw [if_neg hlater, if_pos ⟨by omega, by omega⟩]
      simp [get, hz]
    · have hget : (Registers.mk (v.cells.setIfInBounds k byte)).get z = v.get z := by
        simp [get, Ne.symm hz]
      rw [hget]
      by_cases h : k + 1 ≤ z.val ∧ z.val < k + 1 + rest.length
      · have e : z.val - k = (z.val - (k + 1)) + 1 := by omega
        rw [if_pos h, if_pos ⟨by omega, by omega⟩, e, List.getElem?_cons_succ]
      · rw [if_neg h, if_neg fun h' => h ⟨by omega, by omega⟩]

end Registers

end Chip8
