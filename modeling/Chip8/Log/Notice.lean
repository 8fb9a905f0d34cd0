/-
# Notices

Everything the program reports while it works, as data.  A notice knows its record: the level,
the part of the program it comes from and the sentence.
-/
import Chip8.Clock
import Chip8.Dialect
import Chip8.Fault
import Chip8.Log.Record

namespace Chip8

/-- The parts of the program that report something. -/
inductive Source
  | machine
  | scheduler
  | host
  | terminal
  | commandLine
deriving DecidableEq

/-- The name under which a part reports. -/
def Source.name : Source → String
  | .machine => "chip8vm::machine"
  | .scheduler => "chip8vm::scheduler"
  | .host => "chip8_term::pacing"
  | .terminal => "chip8_term::term"
  | .commandLine => "chip8"

/-- Something that the program reports. -/
inductive Notice
  /-- An instruction is about to be executed. -/
  | executing (pc word : UInt16) (i : Instruction)
  /-- A write past the end of memory was dropped. -/
  | writeDropped (address : Nat)
  /-- An instruction could not be executed. -/
  | faulted (fault : Fault)
  /-- The sound timer ran out. -/
  | soundExpired
  /-- A program of so many bytes does not fit. -/
  | programTruncated (bytes space : Nat)
  /-- So many bytes of a program were loaded. -/
  | programLoaded (bytes : Nat)
  /-- A key was pressed or released. -/
  | keyChanged (key : UInt8) (down : Bool)
  /-- A number that names no key was pressed or released. -/
  | keyIgnored (key : UInt8)
  /-- The scheduler was started. -/
  | started (clock : Clock)
  /-- The scheduler was stopped. -/
  | stopped (elapsed : Duration)
  /-- The host came back late, and part of the time is not made up for. -/
  | stalled (gap lost : Duration)
  /-- The tone was switched. -/
  | toneSwitched (on : Bool)
  /-- A program was read from a file. -/
  | programRead (path : String) (bytes : Nat)
  /-- The settings of a run. -/
  | settings (clock : Clock) (dialect : Dialect)
  /-- A run ended in a fault. -/
  | halted (fault : Fault)
  /-- A run ended in time. -/
  | finished (elapsed : Duration)
deriving DecidableEq

namespace Notice

/-- How grave the notice is. -/
def level : Notice → Log.Level
  | .faulted _ | .halted _ => .error
  | .programTruncated _ _ | .keyIgnored _ | .stalled _ _ => .warn
  | .started _ | .stopped _ | .toneSwitched _ | .programRead _ _ | .finished _ => .info
  | .programLoaded _ | .keyChanged _ _ | .settings _ _ => .debug
  | .executing _ _ _ | .writeDropped _ | .soundExpired => .trace

/-- The part of the program that reports it. -/
def source : Notice → Source
  | .executing _ _ _ | .writeDropped _ | .faulted _ | .soundExpired | .programTruncated _ _
  | .programLoaded _ | .keyChanged _ _ | .keyIgnored _ => .machine
  | .started _ | .stopped _ => .scheduler
  | .stalled _ _ => .host
  | .toneSwitched _ => .terminal
  | .programRead _ _ | .settings _ _ | .halted _ | .finished _ => .commandLine

/-- The sentence. -/
def message : Notice → String
  | .executing pc word i => hexWord 3 pc.toNat ++ ": " ++ hex 4 word.toNat ++ " " ++ i.text
  | .writeDropped address => "dropped write past memory at " ++ hexWord 1 address
  | .faulted fault => fault.message
  | .soundExpired => "sound timer expired"
  | .programTruncated bytes space =>
    "program of " ++ toString bytes ++ " bytes truncated to " ++ toString space ++ " bytes"
  | .programLoaded bytes => "loaded " ++ toString bytes ++ " bytes"
  | .keyChanged key down => "key " ++ hex 1 key.toNat ++ (if down then " down" else " up")
  | .keyIgnored key => "ignoring update of nonexistent key " ++ hexWord 1 key.toNat
  | .started clock =>
    "scheduler started at " ++ toString clock.cycleHz ++ " Hz, timers at "
      ++ toString clock.timerHz ++ " Hz"
  | .stopped elapsed => "scheduler stopped after " ++ elapsed.text
  | .stalled gap lost => "host stalled for " ++ gap.text ++ ", dropping " ++ lost.text
  | .toneSwitched on => if on then "tone on" else "tone off"
  | .programRead path bytes => "loaded " ++ path ++ " (" ++ toString bytes ++ " bytes)"
  | .settings clock dialect => "clock " ++ clock.text ++ ", quirks " ++ dialect.text
  | .halted fault => "program halted: " ++ fault.message
  | .finished elapsed => "finished after " ++ elapsed.text

/-- The notice as a log record. -/
def record (n : Notice) : Log.Record := ⟨n.level, n.source.name, n.message⟩

end Notice

end Chip8
