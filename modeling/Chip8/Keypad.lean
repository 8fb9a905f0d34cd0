/-
# Keypad

Sixteen keys, each up or down.  A key number of 16 or more names no key: it is never down and
cannot be pressed.
-/
namespace Chip8

/-- Which keys are down. -/
@[ext]
structure Keypad where
  cells : Vector Bool 16
deriving DecidableEq

namespace Keypad

/-- Every key up. -/
def released : Keypad := ⟨Vector.replicate 16 false⟩

/-- Whether the key with this number is down. -/
def isDown (k : Keypad) (key : UInt8) : Bool := k.cells[key.toNat]?.getD false

/-- Whether a number names a key. -/
def isKey (key : UInt8) : Bool := key < 16

/-- Presses or releases a key; a number that names no key changes nothing. -/
def set (k : Keypad) (key : UInt8) (down : Bool) : Keypad :=
  ⟨k.cells.setIfInBounds key.toNat down⟩

/-- The lowest key that is down. -/
def lowest? (k : Keypad) : Option (Fin 16) := (List.finRange 16).find? fun key => k.cells[key]

@[simp] theorem isDown_released (key : UInt8) : released.isDown key = false := by
  simp only [isDown, released, Vector.getElem?_replicate]
  split <;> rfl

theorem isDown_set (k : Keypad) (key other : UInt8) (down : Bool) :
    (k.set key down).isDown other =
      if other = key ∧ isKey key then down else k.isDown other := by
  simp only [isDown, set, isKey, Vector.getElem?_setIfInBounds, UInt8.lt_iff_toNat_lt,
    UInt8.toNat_ofNat, decide_eq_true_eq]
  by_cases h : other = key
  · subst h
    by_cases hk : other.toNat < 16 <;> simp [hk]
  · have hne : key.toNat ≠ other.toNat := fun e => h (UInt8.toNat_inj.mp e).symm
    simp [h, hne]

end Keypad

end Chip8
