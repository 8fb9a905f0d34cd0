/-
# Setting up an emulator

A setup collects what an emulator is built from.  A platform and a program have to be given; the
dialect has a default.  Each can be given again, and the last one counts.
-/
import Chip8.Emulator.Basic

namespace Chip8

/-- What an emulator is to be built from. -/
structure Setup (π : Type) where
  platform : Option π := none
  dialect : Dialect := {}
  program : Option (List UInt8) := none

/-- Why a setup does not suffice. -/
inductive SetupError
  | noPlatform
  | noProgram
deriving DecidableEq

/-- The sentence that reports it. -/
def SetupError.message : SetupError → String
  | .noPlatform => "Context not provided"
  | .noProgram => "Program not provided"

namespace Setup

variable {π : Type}

/-- Gives the platform. -/
def withPlatform (s : Setup π) (p : π) : Setup π := { s with platform := some p }

/-- Gives the dialect. -/
def withDialect (s : Setup π) (d : Dialect) : Setup π := { s with dialect := d }

/-- Gives the program. -/
def withProgram (s : Setup π) (program : List UInt8) : Setup π :=
  { s with program := some program }

/-- A machine just switched on with the program loaded; a missing platform is reported before a
missing program. -/
def build (s : Setup π) : Except SetupError (Step (Emulator π) Unit) :=
  match s.platform, s.program with
  | none, _ => .error .noPlatform
  | some _, none => .error .noProgram
  | some platform, some program =>
    .ok (Emulator.load ⟨.powerOn s.dialect, platform⟩ program)

end Setup

end Chip8
