/-
# Memory

4096 bytes.  Reading past the end gives zero and writing past the end does nothing, so every
natural number can be used as an address and nothing wraps round to the start.

`Memory.read` is the view of a memory: two memories that read the same everywhere below the end
are equal (`Memory.ext_read`), and each operation is described by what it makes `read` give.
-/
namespace Chip8

/-- The bytes of a memory. -/
@[ext]
structure Memory where
  cells : Vector UInt8 4096
deriving DecidableEq

namespace Memory

/-- The number of bytes. -/
abbrev size : Nat := 4096

/-- Every byte zero. -/
def blank : Memory := ⟨Vector.replicate 4096 0⟩

/-! ## 1. One byte -/

/-- The byte at an address, zero past the end. -/
def read (m : Memory) (a : Nat) : UInt8 := m.cells[a]?.getD 0

/-- Writes a byte, or drops it past the end. -/
def write (m : Memory) (a : Nat) (byte : UInt8) : Memory := ⟨m.cells.setIfInBounds a byte⟩

theorem read_of_size_le {m : Memory} {a : Nat} (h : size ≤ a) : m.read a = 0 := by
  simp [read, Vector.getElem?_eq_none h]

theorem ext_read {m m' : Memory} (h : ∀ a, a < size → m.read a = m'.read a) : m = m' := by
  refine Memory.ext (Vector.ext fun a ha => ?_)
  have hread := h a ha
  rwa [read, read, Vector.getElem?_eq_getElem ha, Vector.getElem?_eq_getElem ha] at hread

@[simp] theorem read_blank (a : Nat) : blank.read a = 0 := by
  simp only [read, blank]
  by_cases h : a < 4096
  · simp [Vector.getElem?_eq_getElem h]
  · simp [Vector.getElem?_eq_none (Nat.le_of_not_lt h)]

theorem read_write (m : Memory) (a b : Nat) (byte : UInt8) :
    (m.write a byte).read b = if b = a ∧ a < size then byte else m.read b := by
  unfold read write
  rw [Vector.getElem?_setIfInBounds]
  by_cases h : b = a
  · subst h
    by_cases hb : b < 4096 <;> simp [hb]
  · simp [h, Ne.symm h]

/-! ## 2. Runs of bytes -/

/-- Writes bytes to consecutive addresses from `a` on. -/
def store (m : Memory) (a : Nat) : List UInt8 → Memory
  | [] => m
  | byte :: rest => (m.write a byte).store (a + 1) rest

/-- The `n` bytes from address `a` on. -/
def slice (m : Memory) (a n : Nat) : List UInt8 := (List.range n).map fun k => m.read (a + k)

/-- The addresses past the end among those that `store` would write, ascending. -/
def overrun (a : Nat) (bytes : List UInt8) : List Nat :=
  (List.range' a bytes.length).filter fun b => size ≤ b

@[simp] theorem store_nil (m : Memory) (a : Nat) : m.store a [] = m := rfl

@[simp] theorem length_slice (m : Memory) (a n : Nat) : (m.slice a n).length = n := by
  simp [slice]

/-- Storing bytes gives each address of the run below the end its byte; any other keeps the one it
had. -/
theorem read_store (m : Memory) (a b : Nat) (bytes : List UInt8) :
    (m.store a bytes).read b =
      if a ≤ b ∧ b < a + bytes.length ∧ b < size then bytes[b - a]?.getD 0 else m.read b := by
  induction bytes generalizing m a with
  | nil =>
    have h : ¬ (a ≤ b ∧ b < a + 0 ∧ b < size) := by omega
    simp only [store_nil, List.length_nil, if_neg h]
  | cons byte rest ih =>
    rw [store, ih, read_write]
    simp only [List.length_cons]
    by_cases hb : b = a
    · subst hb
      have h1 : ¬ (b + 1 ≤ b ∧ b < b + 1 + rest.length ∧ b < size) := by omega
      by_cases hs : b < size
      · rw [if_neg h1, if_pos ⟨rfl, hs⟩, if_pos ⟨Nat.le_refl b, by omega, hs⟩]
        simp
      · rw [if_neg h1, if_neg (fun h => hs h.2), if_neg (fun h => hs h.2.2)]
    · rw [if_neg (c := b = a ∧ a < size) (fun h => hb h.1)]
      by_cases h : a + 1 ≤ b ∧ b < a + 1 + rest.length ∧ b < size
      · rw [if_pos h, if_pos ⟨by omega, by omega, h.2.2⟩]
        have e : b - a = (b - (a + 1)) + 1 := by omega
        rw [e, List.getElem?_cons_succ]
      · rw [if_neg h, if_neg (fun h' => h ⟨by omega, by omega, h'.2.2⟩)]

end Memory

end Chip8
