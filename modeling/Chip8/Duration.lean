/-
# Spans of time

A duration counts nanoseconds.  Sums are bounded: `Duration.add?` refuses a sum above
`Duration.longest`, the longest span whose seconds still fit in 64 bits.

`Duration.text` shows a span in the largest of `s`, `ms`, `µs` and `ns` whose whole part is not
zero, with the digits after the point that are needed and no zero at the end.
-/
import Chip8.Text.Numeral

namespace Chip8

/-- A span of time in nanoseconds. -/
@[ext]
structure Duration where
  nanos : Nat
deriving DecidableEq

namespace Duration

/-! ## 1. Order and sums -/

instance : LE Duration := ⟨fun a b => a.nanos ≤ b.nanos⟩
instance : LT Duration := ⟨fun a b => a.nanos < b.nanos⟩

instance (a b : Duration) : Decidable (a ≤ b) := inferInstanceAs (Decidable (a.nanos ≤ b.nanos))
instance (a b : Duration) : Decidable (a < b) := inferInstanceAs (Decidable (a.nanos < b.nanos))

theorem le_def {a b : Duration} : a ≤ b ↔ a.nanos ≤ b.nanos := Iff.rfl

theorem lt_def {a b : Duration} : a < b ↔ a.nanos < b.nanos := Iff.rfl

/-- No time at all. -/
def zero : Duration := ⟨0⟩

/-- A number of whole milliseconds. -/
def ofMillis (n : Nat) : Duration := ⟨n * 1000000⟩

/-- The longest span: one nanosecond less than `2 ^ 64` seconds. -/
def longest : Duration := ⟨18446744073709551616 * 1000000000 - 1⟩

/-- The sum, if it is a span that can be represented. -/
def add? (a b : Duration) : Option Duration :=
  if a.nanos + b.nanos ≤ longest.nanos then some ⟨a.nanos + b.nanos⟩ else none

theorem add?_eq_some_iff {a b c : Duration} :
    a.add? b = some c ↔ a.nanos + b.nanos ≤ longest.nanos ∧ c.nanos = a.nanos + b.nanos := by
  unfold add?
  split
  · rename_i h
    simp only [Option.some.injEq, h, true_and, Duration.ext_iff]
    exact eq_comm
  · rename_i h
    simp [h]

/-- What is left of `a` after `b`, nothing if `b` is longer. -/
def minus (a b : Duration) : Duration := ⟨a.nanos - b.nanos⟩

/-! ## 2. Text -/

/-- Decimal text of `n` units of which `unit` make a whole: `places` digits after the point, less
the zeros at the end; the point goes with the last of them. -/
def decimal (unit places n : Nat) : String :=
  let fraction := ((Numeral.digits 10 places n).reverse.dropWhile (· = '0')).reverse
  toString (n / unit) ++ (if fraction.isEmpty then "" else "." ++ String.ofList fraction)

/-- The span in the largest unit that it fills at least once. -/
def text (d : Duration) : String :=
  if 1000000000 ≤ d.nanos then decimal 1000000000 9 d.nanos ++ "s"
  else if 1000000 ≤ d.nanos then decimal 1000000 6 d.nanos ++ "ms"
  else if 1000 ≤ d.nanos then decimal 1000 3 d.nanos ++ "µs"
  else decimal 1 0 d.nanos ++ "ns"

end Duration

end Chip8
