/-
# Sessions

A session runs one program on the terminal: it is opened with the settings of a run, taken
through rounds as time passes, and closed in time or halted by a fault.

`report` answers a whole command line on a host that keeps perfect time: the first round comes a
nanosecond after the start, and the others follow at the refresh rate until the duration is over.
-/
import Chip8.CommandLine.Arguments
import Chip8.Emulator.Setup
import Chip8.Host.Round
import Chip8.Host.Terminal
import Chip8.Screen.Picture

namespace Chip8.CommandLine

/-! ## 1. Fixed texts -/

/-- Why the file of a program cannot be read. -/
inductive ReadError
  | notFound
  | denied
  | notDirectory
  | isDirectory
  | nameTooLong
  | other (reason : String)
deriving DecidableEq

/-- The phrase that reports it, with its number. -/
def ReadError.message : ReadError → String
  | .notFound => "No such file or directory (os error 2)"
  | .denied => "Permission denied (os error 13)"
  | .notDirectory => "Not a directory (os error 20)"
  | .isDirectory => "Is a directory (os error 21)"
  | .nameTooLong => "File name too long (os error 36)"
  | .other reason => reason

/-- The line that sums up the arguments. -/
def usage : String := "Usage: chip8 [OPTIONS] --rom <ROM>"

/-- The answer to `--help`. -/
def helpText : String := String.intercalate "\n"
  ["Run a chip-8 program headless, printing frames as ASCII",
   "",
   usage,
   "",
   "Options:",
   "      --rom <ROM>                  Path to the program image",
   "      --cycle-hz <CYCLE_HZ>        Instructions per second [default: 250]",
   "      --duration-ms <DURATION_MS>  Stop after this many milliseconds [default: 5000]",
   "      --shift-uses-vy              8XY6/8XYE shift VY instead of VX",
   "      --no-index-increment         FX55/FX65 leave I unchanged",
   "      --log-level <LOG_LEVEL>      off, error, warn, info, debug or trace [default: INFO]",
   "  -h, --help                       Print help",
   "  -V, --version                    Print version",
   ""]

/-- The answer to `--version`. -/
def versionText : String := "chip8 0.1.0\n"

/-- The lines that refuse the arguments. -/
def usageLines (e : UsageError) : List String :=
  ["error: " ++ e.message, "", usage, "", "For more information, try '--help'."]

/-- The lines that report a program that cannot be read. -/
def unreadableLines (path : String) (e : ReadError) : List String :=
  ["Error: Failed reading program " ++ path, "", "Caused by:", "    " ++ e.message]

/-- The line that ends a run halted by a fault. -/
def faultLine (f : Fault) : String := "Error: " ++ f.message

/-- Lines as they are printed, each with its end. -/
def printed (lines : List String) : String := String.join (lines.map fun line => line ++ "\n")

/-! ## 2. A session -/

/-- The lines of the log for some events. -/
def logLines (t : Log.Threshold) (events : List Event) : List String :=
  ((Event.notices events).filter fun n => t.admits n.level).map fun n => n.record.line

/-- The time from one look at the screen to the next: a sixtieth of a second. -/
def refresh : Duration := ⟨1000000000 / 60⟩

variable {γ : Type} [Generator γ]

/-- A console with the program loaded and the scheduler started. -/
def openSession (s : Settings) (program : List UInt8) (generator : γ) :
    Step (Console (Terminal γ)) Unit :=
  let loaded := Emulator.load ⟨.powerOn s.dialect, .silent generator⟩ program
  let started := Console.start ⟨.idle s.clock, loaded.state⟩
  { result := ()
    state := started.state
    events :=
      .notice (.programRead s.rom program.length) :: loaded.events
        ++ .notice (.settings s.clock s.dialect) :: started.events }

/-- The end of a session in time. -/
def closeSession (c : Console (Terminal γ)) (elapsed : Duration) :
    Step (Console (Terminal γ)) Unit :=
  let stopped := c.stop
  { stopped with events := stopped.events ++ [.notice (.finished elapsed)] }

/-! ## 3. A session in perfect time -/

/-- What a command line prints, and the code it exits with. -/
structure Report where
  exitCode : Nat := 0
  stdout : String := ""
  stderr : String := ""

/-- Adds lines on standard error. -/
def Report.addErrors (r : Report) (lines : List String) : Report :=
  { r with stderr := r.stderr ++ printed lines }

/-- Adds the log of some events. -/
def Report.log (r : Report) (t : Log.Threshold) (events : List Event) : Report :=
  r.addErrors (logLines t events)

/-- Adds a screen, if there is one. -/
def Report.addScreen (r : Report) : Option Screen → Report
  | none => r
  | some s => { r with stdout := r.stdout ++ s.picture }

/-- Takes a session through a number of rounds, the first of them after `gap`, and closes it. -/
def play (s : Settings) (r : Report) (c : Console (Terminal γ)) (gap : Duration) :
    Nat → Report
  | 0 => r.log s.threshold (closeSession c (.ofMillis s.durationMs)).events
  | rounds + 1 =>
    let done := c.round gap
    let r := r.log s.threshold done.events
    match done.result with
    | (.faulted f, _) =>
      let r := r.log s.threshold [.notice (.halted f)]
      { r.addErrors [faultLine f] with exitCode := 1 }
    | (_, screen) => play s (r.addScreen screen) done.state refresh rounds

/-- The rounds that begin before a duration is over. -/
def roundsWithin (d : Duration) : Nat := (d.nanos + refresh.nanos - 1) / refresh.nanos

/-- Runs a program in perfect time. -/
def runReport (s : Settings) (program : List UInt8) (generator : γ) : Report :=
  let opened := openSession s program generator
  let r : Report := Report.log {} s.threshold opened.events
  play s r opened.state ⟨1⟩ (roundsWithin (.ofMillis s.durationMs))

/-- Answers a command line; `file` gives the bytes of a file or the reason why there are none. -/
def report (args : List String) (file : String → Except ReadError (List UInt8))
    (generator : γ) : Report :=
  match read args with
  | .error e => Report.addErrors { exitCode := 2 } (usageLines e)
  | .ok .help => { stdout := helpText }
  | .ok .version => { stdout := versionText }
  | .ok (.run s) =>
    match file s.rom with
    | .error e => Report.addErrors { exitCode := 1 } (unreadableLines s.rom e)
    | .ok program => runReport s program generator

end Chip8.CommandLine
