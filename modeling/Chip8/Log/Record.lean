/-
# Log records

A record has a level, a source and a message, and one written form:

    [LEVEL][source] message

The level stands in a column of five characters, so every source starts in the same column.  A
threshold lets through the records of its level and of the graver ones; a log that is off lets
nothing through.
-/
namespace Chip8.Log

/-- How grave a record is, from `error` down to `trace`. -/
inductive Level
  | error
  | warn
  | info
  | debug
  | trace
deriving DecidableEq

namespace Level

/-- The level's name as it is written. -/
def name : Level → String
  | .error => "ERROR"
  | .warn => "WARN"
  | .info => "INFO"
  | .debug => "DEBUG"
  | .trace => "TRACE"

/-- The level's rank, the gravest first. -/
def rank : Level → Nat
  | .error => 1
  | .warn => 2
  | .info => 3
  | .debug => 4
  | .trace => 5

/-- Every level, the gravest first. -/
def all : List Level := [.error, .warn, .info, .debug, .trace]

/-- The level of a name, in letters of either case. -/
def ofName? (s : String) : Option Level := all.find? fun l => l.name = s.map Char.toUpper

/-- The level's name, followed by blanks up to five characters. -/
def column (l : Level) : String := String.ofList (l.name.toList.rightpad 5 ' ')

@[simp] theorem length_column (l : Level) : l.column.toList.length = 5 := by
  cases l <;> decide

end Level

/-- A record. -/
@[ext]
structure Record where
  level : Level
  source : String
  message : String
deriving DecidableEq

/-- The record as a line of the log. -/
def Record.line (r : Record) : String :=
  "[" ++ r.level.column ++ "][" ++ r.source ++ "] " ++ r.message

/-- What a log lets through: the records up to a level, or nothing if it is off. -/
abbrev Threshold := Option Level

namespace Threshold

/-- Whether a level passes. -/
def admits (t : Threshold) (l : Level) : Bool := t.any fun limit => l.rank ≤ limit.rank

/-- The threshold of a name: `off` or a level, in letters of either case. -/
def ofName? (s : String) : Option Threshold :=
  if s.map Char.toUpper = "OFF" then some none else (Level.ofName? s).map some

end Threshold

end Chip8.Log
