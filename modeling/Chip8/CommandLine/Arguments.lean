/-
# Arguments

The arguments of the command line, read from left to right.

* An option that takes a value has it in the same argument after `=`, or in the next one; a next
  argument that looks like an option is no value.
* An option may be given once.  Arguments that are no option are refused.
* `--help` and `--version` end the reading where they stand, so a mistake counts only if it
  stands before them, and the program's path may be missing only if one of them is given.
-/
import Chip8.Clock
import Chip8.Dialect
import Chip8.Log.Record
import Chip8.Text.Numeral

namespace Chip8.CommandLine

/-! ## 1. What can be asked for -/

/-- The settings of a run. -/
structure Settings where
  /-- The file that holds the program. -/
  rom : String
  cycleHz : Nat := 250
  durationMs : Nat := 5000
  dialect : Dialect := {}
  threshold : Log.Threshold := some .info
deriving DecidableEq

/-- The clock of a run. -/
def Settings.clock (s : Settings) : Clock := { cycleHz := s.cycleHz }

/-- What the arguments ask for. -/
inductive Request
  | run (settings : Settings)
  | help
  | version
deriving DecidableEq

/-- An option that takes a value. -/
inductive Setting
  | rom
  | cycleHz
  | durationMs
  | logLevel
deriving DecidableEq

/-- An option that takes none. -/
inductive Switch
  | shiftReadsY
  | keepIndex
  | help
  | version
deriving DecidableEq

/-- The name of an option, behind two hyphens. -/
def Setting.name : Setting → String
  | .rom => "rom"
  | .cycleHz => "cycle-hz"
  | .durationMs => "duration-ms"
  | .logLevel => "log-level"

/-- The name of an option, behind two hyphens. -/
def Switch.name : Switch → String
  | .shiftReadsY => "shift-uses-vy"
  | .keepIndex => "no-index-increment"
  | .help => "help"
  | .version => "version"

/-- The option of a name. -/
def Setting.ofName? (name : String) : Option Setting :=
  [.rom, .cycleHz, .durationMs, .logLevel].find? fun s => s.name = name

/-- The option of a name. -/
def Switch.ofName? (name : String) : Option Switch :=
  [.shiftReadsY, .keepIndex, .help, .version].find? fun s => s.name = name

/-- Why the arguments were refused. -/
inductive UsageError
  /-- The argument is no option and nothing else is expected. -/
  | unexpected (argument : String)
  /-- The option needs a value. -/
  | noValue (option : Setting)
  /-- The option takes no value. -/
  | strayValue (option : Switch)
  /-- The value is none that the option can have. -/
  | badValue (option : Setting) (value : String)
  /-- The option was given before. -/
  | repeated (name : String)
  /-- The program's path is missing. -/
  | noRom
deriving DecidableEq

/-- The sentence that reports it. -/
def UsageError.message : UsageError → String
  | .unexpected argument => "unexpected argument '" ++ argument ++ "' found"
  | .noValue option => "a value is required for '--" ++ option.name ++ "' but none was supplied"
  | .strayValue option => "option '--" ++ option.name ++ "' takes no value"
  | .badValue option value => "invalid value '" ++ value ++ "' for '--" ++ option.name ++ "'"
  | .repeated name => "the argument '--" ++ name ++ "' cannot be used multiple times"
  | .noRom => "the argument '--rom' is required"

/-! ## 2. One argument -/

/-- What an argument looks like. -/
inductive Argument
  /-- An option by its name, `--name` or `--name=value`. -/
  | long (name : String) (value : Option String)
  /-- One hyphen and letters. -/
  | short (letters : List Char)
  /-- Two hyphens alone: no options follow. -/
  | separator
  /-- Anything else. -/
  | plain

/-- Tells the forms of an argument apart; the first `=` ends a name. -/
def Argument.ofString (s : String) : Argument :=
  match s.toList with
  | ['-', '-'] => .separator
  | '-' :: '-' :: rest =>
    let name := String.ofList (rest.takeWhile (· ≠ '='))
    match rest.dropWhile (· ≠ '=') with
    | [] => .long name none
    | _ :: value => .long name (some (String.ofList value))
  | '-' :: c :: rest => .short (c :: rest)
  | _ => .plain

/-- Whether an argument looks like an option; a hyphen alone does not. -/
def looksLikeOption (s : String) : Bool :=
  match s.toList with
  | '-' :: _ :: _ => true
  | _ => false

/-- A number of at most 64 bits in decimal, with an optional plus sign. -/
def readNumber? (s : String) : Option Nat :=
  let digits := match s.toList with
    | '+' :: rest => rest
    | all => all
  (Numeral.value? 10 digits).filter fun n => n < UInt64.size

/-! ## 3. All arguments -/

/-- The options given so far. -/
structure Draft where
  rom : Option String := none
  cycleHz : Option Nat := none
  durationMs : Option Nat := none
  logLevel : Option Log.Threshold := none
  shiftReadsY : Bool := false
  keepIndex : Bool := false

namespace Draft

/-- Stores a value unless there is one already. -/
def once {α : Type} (given : Option α) (option : Setting) (text : String) (value : Option α) :
    Except UsageError (Option α) :=
  match given, value with
  | some _, _ => .error (.repeated option.name)
  | none, none => .error (.badValue option text)
  | none, some v => .ok (some v)

/-- Gives an option its value. -/
def give (d : Draft) (option : Setting) (text : String) : Except UsageError Draft :=
  match option with
  | .rom =>
    (once d.rom option text (if text = "" then none else some text)).map
      fun v => { d with rom := v }
  | .cycleHz =>
    (once d.cycleHz option text (readNumber? text)).map fun v => { d with cycleHz := v }
  | .durationMs =>
    (once d.durationMs option text (readNumber? text)).map fun v => { d with durationMs := v }
  | .logLevel =>
    (once d.logLevel option text (Log.Threshold.ofName? text)).map
      fun v => { d with logLevel := v }

/-- The request, once all arguments are read. -/
def finish (d : Draft) : Except UsageError Request :=
  match d.rom with
  | none => .error .noRom
  | some rom => .ok (.run
      { rom
        cycleHz := d.cycleHz.getD 250
        durationMs := d.durationMs.getD 5000
        dialect := { shiftReadsY := d.shiftReadsY, transferMovesIndex := !d.keepIndex }
        threshold := d.logLevel.getD (some .info) })

end Draft

/-- Reads the arguments that are left. -/
def readFrom (d : Draft) : List String → Except UsageError Request
  | [] => d.finish
  | arg :: rest =>
    match Argument.ofString arg with
    | .plain => .error (.unexpected arg)
    | .separator =>
      match rest with
      | [] => d.finish
      | next :: _ => .error (.unexpected next)
    | .short letters =>
      match letters.head? with
      | some 'h' => .ok .help
      | some 'V' => .ok .version
      | _ => .error (.unexpected arg)
    | .long name value =>
      match Setting.ofName? name, Switch.ofName? name, value with
      | some option, _, some text =>
        match d.give option text with
        | .error e => .error e
        | .ok d => readFrom d rest
      | some option, _, none =>
        match rest with
        | [] => .error (.noValue option)
        | text :: rest =>
          if looksLikeOption text then .error (.noValue option)
          else match d.give option text with
            | .error e => .error e
            | .ok d => readFrom d rest
      | none, some switch, some _ => .error (.strayValue switch)
      | none, some .help, none => .ok .help
      | none, some .version, none => .ok .version
      | none, some .shiftReadsY, none =>
        if d.shiftReadsY then .error (.repeated name)
        else readFrom { d with shiftReadsY := true } rest
      | none, some .keepIndex, none =>
        if d.keepIndex then .error (.repeated name)
        else readFrom { d with keepIndex := true } rest
      | none, none, _ => .error (.unexpected arg)

/-- Reads the arguments of the command line. -/
def read (args : List String) : Except UsageError Request := readFrom {} args

end Chip8.CommandLine
