/-
# Platforms

What a machine needs from the world around it: random bytes, and a tone that can be told to sound
or to be silent.  Screen and keys are not part of a platform; a host fetches the one and sets the
others between instructions.

Everything an operation does besides changing state is listed as events: its calls to the
platform and its notices, in order.  `Step` is the outcome of an operation.
-/
import Chip8.Log.Notice

namespace Chip8

/-- A platform, as a state that its two operations take to the next. -/
class Platform (π : Type) where
  /-- Draws a random byte. -/
  draw : π → UInt8 × π
  /-- Tells whether the tone should sound, and what the platform reports about that. -/
  tell : π → Bool → π × List Notice

/-- A call to the platform. -/
inductive Call
  /-- A random byte was drawn. -/
  | random
  /-- The platform was told whether the tone should sound. -/
  | tone (on : Bool)
deriving DecidableEq

/-- Something an operation does besides changing state. -/
inductive Event
  | call (c : Call)
  | notice (n : Notice)
deriving DecidableEq

namespace Event

/-- The call, if the event is one. -/
def call? : Event → Option Call
  | .call c => some c
  | .notice _ => none

/-- The notice, if the event is one. -/
def notice? : Event → Option Notice
  | .call _ => none
  | .notice n => some n

/-- The calls among some events. -/
def calls (es : List Event) : List Call := es.filterMap call?

/-- The notices among some events. -/
def notices (es : List Event) : List Notice := es.filterMap notice?

end Event

/-- The outcome of an operation on a state: its answer, the next state and its events. -/
@[ext]
structure Step (σ α : Type) where
  result : α
  state : σ
  events : List Event

/-- An operation that only changes the state and reports something. -/
def Step.quiet {σ : Type} (state : σ) (notices : List Notice) : Step σ Unit :=
  ⟨(), state, notices.map .notice⟩

end Chip8
