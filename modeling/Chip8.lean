import Chip8.Text.Labelled
import Chip8.Text.Numeral
import Chip8.Duration
import Chip8.Clock
import Chip8.Dialect
import Chip8.Instruction.Basic
import Chip8.Instruction.Coding
import Chip8.Fault
import Chip8.Memory
import Chip8.Registers
import Chip8.Keypad
import Chip8.Countdown
import Chip8.Screen.Basic
import Chip8.Screen.Sprite
import Chip8.Screen.Picture
import Chip8.Machine.Basic
import Chip8.Machine.Execution
import Chip8.Log.Record
import Chip8.Log.Notice
import Chip8.Platform
import Chip8.Emulator.Basic
import Chip8.Emulator.Setup
import Chip8.Scheduler.Basic
import Chip8.Scheduler.Console
import Chip8.Host.Round
import Chip8.Host.Terminal
import Chip8.CommandLine.Arguments
import Chip8.CommandLine.Session
import Chip8.Main
import Chip8.Proofs.Numeral
import Chip8.Proofs.Runs
import Chip8.Proofs.History
import Chip8.Proofs.Log.Lines
import Chip8.Proofs.Instruction.Words
import Chip8.Proofs.Screen.Cells
import Chip8.Proofs.Screen.Coordinates
import Chip8.Proofs.Screen.Views
import Chip8.Proofs.Machine.Control
import Chip8.Proofs.Machine.ProgramCounter
import Chip8.Proofs.Machine.Atomicity
import Chip8.Proofs.Machine.Diagnosis
import Chip8.Proofs.Machine.Faults
import Chip8.Proofs.Machine.Calls
import Chip8.Proofs.Machine.Effects
import Chip8.Proofs.Machine.Keys
import Chip8.Proofs.Machine.Access
import Chip8.Proofs.Instruction.Format
import Chip8.Proofs.Machine.Display
import Chip8.Proofs.Machine.Timers
import Chip8.Proofs.Machine.Randomness
import Chip8.Proofs.Machine.Independence
import Chip8.Proofs.Machine.Exchange
import Chip8.Proofs.Machine.Dialects
import Chip8.Proofs.Machine.Drawing
import Chip8.Proofs.Machine.Painting
import Chip8.Proofs.Machine.Footprint
import Chip8.Proofs.Machine.Arithmetic
import Chip8.Proofs.Machine.Transfers
import Chip8.Proofs.Machine.Decimals
import Chip8.Proofs.Machine.Waiting
import Chip8.Proofs.Machine.Restart
import Chip8.Proofs.Machine.Loading
import Chip8.Proofs.Scheduler.Agenda
import Chip8.Proofs.Scheduler.Slices
import Chip8.Proofs.Scheduler.Deadlines
import Chip8.Proofs.Scheduler.Lifecycle
import Chip8.Proofs.Scheduler.Tone
import Chip8.Proofs.Scheduler.Pacing
import Chip8.Proofs.Scheduler.Termination
import Chip8.Proofs.Scheduler.Rate
import Chip8.Proofs.Scheduler.Waiting
