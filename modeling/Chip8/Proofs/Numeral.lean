/-
# Numerals read back

`value?_digits`: reading the last `k` digits of a number gives the number modulo `base ^ k`, for
every base up to sixteen.  So digits lose nothing as long as the number needs at most `k` of them.

`value?_hex`: hexadecimal text always has enough digits, so it is read back whatever the number and
the width.
-/
import Mathlib
import Chip8.Text.Numeral

namespace Chip8.Numeral

/-! ## 1. One digit -/

theorem digitValue?_digit {base d : Nat} (hb : base ≤ 16) (hd : d < base) :
    digitValue? base (digit d) = some d := by
  have h : ∀ k : Fin 16, digitValue? 16 (digit k) = some k.val := by decide
  have h16 := h ⟨d, by omega⟩
  simp only [digitValue?] at h16 ⊢
  grind

/-! ## 2. Digit strings -/

theorem valueFrom?_append (base acc : Nat) (l r : List Char) :
    valueFrom? base acc (l ++ r) = (valueFrom? base acc l).bind fun a => valueFrom? base a r := by
  induction l generalizing acc with
  | nil => rfl
  | cons c l ih =>
    simp only [List.cons_append, valueFrom?]
    cases digitValue? base c with
    | none => rfl
    | some d => exact ih _

theorem valueFrom?_digits {base : Nat} (hb : base ≤ 16) (h0 : 0 < base) (k acc n : Nat) :
    valueFrom? base acc (digits base k n) = some (acc * base ^ k + n % base ^ k) := by
  induction k generalizing n with
  | zero => simp [digits, valueFrom?, Nat.mod_one]
  | succ k ih =>
    rw [digits, valueFrom?_append, ih]
    simp only [Option.bind_some, valueFrom?, digitValue?_digit hb (Nat.mod_lt n h0),
      Option.some.injEq]
    rw [Nat.pow_succ, Nat.mul_comm (base ^ k) base, Nat.mod_mul, Nat.add_mul, Nat.mul_assoc,
      Nat.mul_comm (base ^ k) base, Nat.mul_comm (n / base % base ^ k) base]
    omega

/-- Digits read back: `k` of them keep the number modulo `base ^ k`. -/
theorem value?_digits {base k : Nat} (hb : base ≤ 16) (h0 : 0 < base) (hk : 0 < k) (n : Nat) :
    value? base (digits base k n) = some (n % base ^ k) := by
  have hlen := length_digits base k n
  have hval := valueFrom?_digits hb h0 k 0 n
  cases hd : digits base k n with
  | nil => rw [hd] at hlen; simp at hlen; omega
  | cons c rest => rw [hd] at hval; simpa [value?] using hval

theorem mem_digits {base k n : Nat} {c : Char} (h0 : 0 < base) (h : c ∈ digits base k n) :
    ∃ d < base, c = digit d := by
  induction k generalizing n with
  | zero => cases h
  | succ k ih =>
    rcases List.mem_append.mp h with h | h
    · exact ih h
    · exact ⟨n % base, Nat.mod_lt n h0, List.mem_singleton.mp h⟩

/-! ## 3. Hexadecimal text -/

/-- A number has no more hexadecimal digits than are written. -/
theorem lt_pow_hexLength (n : Nat) : n < 16 ^ hexLength n := by
  have hbits : n.log2 + 1 ≤ 4 * hexLength n := by
    rw [hexLength]
    omega
  calc n < 2 ^ (n.log2 + 1) := Nat.lt_log2_self
    _ ≤ 2 ^ (4 * hexLength n) := Nat.pow_le_pow_right (by decide) hbits
    _ = 16 ^ hexLength n := by rw [Nat.pow_mul]

/-- **Hexadecimal text read back**, also where the number needs more digits than the width. -/
theorem value?_hex (width n : Nat) : value? 16 (hex width n).toList = some n := by
  have hlength : hexLength n ≤ max width (hexLength n) := Nat.le_max_right ..
  have hpos : 0 < max width (hexLength n) := Nat.lt_of_lt_of_le (Nat.succ_pos _) hlength
  have hlt : n < 16 ^ max width (hexLength n) :=
    Nat.lt_of_lt_of_le (lt_pow_hexLength n) (Nat.pow_le_pow_right (by decide) hlength)
  rw [hex, String.toList_ofList, value?_digits (Nat.le_refl _) (by decide) hpos,
    Nat.mod_eq_of_lt hlt]

theorem blank_not_mem_hex (width n : Nat) : ' ' ∉ (hex width n).toList := by
  have hdigit : ∀ d < 16, digit d ≠ ' ' := by decide
  rw [hex, String.toList_ofList]
  intro h
  obtain ⟨d, hd, hblank⟩ := mem_digits (by decide) h
  exact hdigit d hd hblank.symm

end Chip8.Numeral
