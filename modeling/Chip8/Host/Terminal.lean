/-
# The terminal platform

A platform without a loudspeaker: it remembers what it was told about the tone and reports each
change.  Its random bytes come from whatever generator it is given.
-/
import Chip8.Platform

namespace Chip8

/-- A generator of random bytes, as a state that each byte takes to the next. -/
class Generator (γ : Type) where
  /-- The next byte, and the generator after it. -/
  next : γ → UInt8 × γ

/-- Bytes that are written down are drawn one after the other, and zeros once they are used up. -/
instance : Generator (List UInt8) where
  next
    | [] => (0, [])
    | byte :: later => (byte, later)

/-- The state of the terminal: whether the tone sounds, and the generator. -/
@[ext]
structure Terminal (γ : Type) where
  soundOn : Bool := false
  generator : γ
deriving DecidableEq

namespace Terminal

variable {γ : Type}

/-- A terminal that has not been told anything. -/
def silent (generator : γ) : Terminal γ := { generator }

/-- Draws a byte from the generator. -/
def draw [Generator γ] (t : Terminal γ) : UInt8 × Terminal γ :=
  let drawn := Generator.next t.generator
  (drawn.1, { t with generator := drawn.2 })

/-- Switches the tone and reports it if that is a change. -/
def tell (t : Terminal γ) (on : Bool) : Terminal γ × List Notice :=
  ({ t with soundOn := on }, if t.soundOn = on then [] else [.toneSwitched on])

instance [Generator γ] : Platform (Terminal γ) := ⟨draw, tell⟩

end Terminal

end Chip8
