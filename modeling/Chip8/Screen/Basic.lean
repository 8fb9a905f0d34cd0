/-
# Screen

A picture of 64 by 32 cells, each lit or dark, packed eight to a byte.  Cells are numbered row by
row from the top left; the leftmost cell of a byte is its highest bit.

* `cell?` reads a cell by number, `pixel?` by column and line; the number of the cell is computed
  in 64 bits, and there is no answer if they do not hold it.
* `plot` is the only way to change a single cell.
* `bits` lists the cells in order; `rows` cuts that list into lines and `lit` counts in it.
-/
namespace Chip8

/-! ## 1. Numbers of 64 bits -/

/-- An operation whose result 64 bits do not hold. -/
inductive Overflow
  | product
  | sum
deriving DecidableEq

/-- The sentence that reports it. -/
def Overflow.message : Overflow → String
  | .product => "attempt to multiply with overflow"
  | .sum => "attempt to add with overflow"

namespace Checked

/-- A product that has to fit. -/
def times (a b : UInt64) : Except Overflow UInt64 :=
  if a.toNat * b.toNat < UInt64.size then .ok (a * b) else .error .product

/-- A sum that has to fit. -/
def plus (a b : UInt64) : Except Overflow UInt64 :=
  if a.toNat + b.toNat < UInt64.size then .ok (a + b) else .error .sum

end Checked

/-- The bytes of a picture, top to bottom and left to right. -/
@[ext]
structure Screen where
  bytes : Vector UInt8 256
deriving DecidableEq

namespace Screen

/-- Cells in a line. -/
abbrev width : Nat := 64

/-- Lines. -/
abbrev height : Nat := 32

/-- Cells in a picture. -/
abbrev cells : Nat := 2048

/-- Every cell dark. -/
def blank : Screen := ⟨Vector.replicate 256 0⟩

/-! ## 2. Bits of a byte -/

/-- Bit `k` of a byte, counted from its left end. -/
def bit (byte : UInt8) (k : Nat) : Bool := byte.toNat.testBit (7 - k)

/-- The byte with bit `k` alone, counted from the left end. -/
def mask (k : Nat) : UInt8 := UInt8.ofNat (128 >>> k)

/-- The eight bits of a byte from left to right. -/
def bitsOf (byte : UInt8) : List Bool := (List.range 8).map (bit byte)

theorem bit_xor (a b : UInt8) (k : Nat) : bit (a ^^^ b) k = (bit a k ^^ bit b k) := by
  simp [bit]

theorem bit_mask {j k : Nat} (hj : j < 8) (hk : k < 8) : bit (mask k) j = decide (j = k) := by
  have h : ∀ a b : Fin 8, bit (mask a) b = decide (b.val = a.val) := by decide
  exact h ⟨k, hk⟩ ⟨j, hj⟩

/-! ## 3. One cell -/

/-- Whether a cell is lit, if there is a cell of that number. -/
def cell? (s : Screen) (c : Nat) : Option Bool := s.bytes[c / 8]?.map fun byte => bit byte (c % 8)

/-- Whether the cell at a column and a line is lit.  The column is checked, and the line is left to
the bound on cells. -/
def pixel? (s : Screen) (x y : UInt64) : Except Overflow (Option Bool) :=
  if x < 64 then do
    let first ← Checked.times y 64
    let c ← Checked.plus x first
    return s.cell? c.toNat
  else return none

/-- Switches a cell, if there is a cell of that number. -/
def flip (s : Screen) (c : Nat) : Screen :=
  if h : c / 8 < 256 then ⟨s.bytes.set (c / 8) (s.bytes[c / 8] ^^^ mask (c % 8))⟩ else s

/-- Combines a cell with `value` by exclusive or.  Also tells whether that switched off a lit
cell, if there is a cell of that number. -/
def plot (s : Screen) (c : Nat) (value : Bool) : Screen × Option Bool :=
  (if value then s.flip c else s, (s.cell? c).map fun lit => lit && value)

theorem cell?_eq_none_iff {s : Screen} {c : Nat} : s.cell? c = none ↔ cells ≤ c := by
  simp only [cell?, Option.map_eq_none_iff, Vector.getElem?_eq_none_iff, cells]
  omega

@[simp] theorem cell?_blank {c : Nat} (h : c < cells) : blank.cell? c = some false := by
  have hc : c / 8 < 256 := Nat.div_lt_of_lt_mul h
  simp [cell?, blank, Vector.getElem?_eq_getElem hc, bit]

/-- Flipping a cell switches that cell and no other. -/
theorem cell?_flip (s : Screen) (c d : Nat) :
    (s.flip c).cell? d = (s.cell? d).map fun lit => lit ^^ decide (d = c) := by
  unfold flip
  split
  · rename_i hc
    simp only [cell?, Vector.getElem?_set, Option.map_map]
    by_cases h : c / 8 = d / 8
    · rw [if_pos h, Vector.getElem?_eq_getElem (h ▸ hc)]
      have e : decide (d % 8 = c % 8) = decide (d = c) := by
        rw [decide_eq_decide]
        omega
      simp only [Option.map_some, Function.comp_apply, bit_xor,
        bit_mask (Nat.mod_lt d (by decide)) (Nat.mod_lt c (by decide)), e, h]
    · have e : ¬ d = c := fun e => h (e ▸ rfl)
      rw [if_neg h]
      simp [e, Function.comp_def]
  · rename_i hc
    by_cases e : d = c
    · subst e
      simp [cell?, Vector.getElem?_eq_none (Nat.le_of_not_lt hc)]
    · simp [e]

/-! ## 4. All cells -/

/-- The cells in order. -/
def bits (s : Screen) : List Bool := s.bytes.toList.flatMap bitsOf

/-- The cells line by line, from the top. -/
def rows (s : Screen) : List (List Bool) :=
  (List.range height).map fun y => (s.bits.drop (width * y)).take width

/-- The number of lit cells. -/
def lit (s : Screen) : Nat := s.bits.count true

end Screen

end Chip8
