/-
# Numerals of fixed width

Hexadecimal and decimal digits, most significant first.

* `digits base k n` is the last `k` digits of `n`, zeros in front included.
* `hex width n` is `n` in upper-case hexadecimal, padded with zeros to `width` digits; a number
  that needs more digits than that gets them.
* `value? base` reads digits back.
-/
namespace Chip8.Numeral

/-! ## 1. One digit -/

/-- The digit of a value below sixteen: `0` to `9`, then `A` to `F`. -/
def digit (d : Nat) : Char :=
  if d < 10 then Char.ofNat (48 + d) else Char.ofNat (55 + d)

/-- The value of a digit below `base`; letters are read in either case. -/
def digitValue? (base : Nat) (c : Char) : Option Nat :=
  let v :=
    if c.isDigit then c.toNat - 48
    else if 'A' ≤ c ∧ c ≤ 'F' then c.toNat - 55
    else if 'a' ≤ c ∧ c ≤ 'f' then c.toNat - 87
    else base
  if v < base then some v else none

/-! ## 2. Digit strings -/

/-- The last `k` digits of `n`, most significant first. -/
def digits (base : Nat) : Nat → Nat → List Char
  | 0, _ => []
  | k + 1, n => digits base k (n / base) ++ [digit (n % base)]

@[simp] theorem length_digits (base k n : Nat) : (digits base k n).length = k := by
  induction k generalizing n with
  | zero => rfl
  | succ k ih => simp [digits, ih]

/-- The number that digits stand for, read from the left after the number `acc`. -/
def valueFrom? (base acc : Nat) : List Char → Option Nat
  | [] => some acc
  | c :: rest => (digitValue? base c).bind fun d => valueFrom? base (acc * base + d) rest

/-- The number that a digit string stands for; no digits stand for no number. -/
def value? (base : Nat) : List Char → Option Nat
  | [] => none
  | c :: rest => valueFrom? base 0 (c :: rest)

end Chip8.Numeral

namespace Chip8

/-! ## 3. Hexadecimal text -/

/-- How many hexadecimal digits `n` needs, at least one. -/
def hexLength (n : Nat) : Nat := n.log2 / 4 + 1

/-- Hexadecimal text of `n`, at least `width` digits. -/
def hex (width n : Nat) : String :=
  String.ofList (Numeral.digits 16 (max width (hexLength n)) n)

/-- A number as the program writes addresses and words: `0x` and at least `width` digits. -/
def hexWord (width n : Nat) : String := "0x" ++ hex width n

end Chip8
