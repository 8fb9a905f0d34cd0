/-
# The program

Runs a program on the terminal in real time: the screen is printed whenever it was drawn on, the
log goes to standard error.
-/
import Chip8.CommandLine.Session

namespace Chip8.CommandLine

/-- Prints lines on standard error. -/
def printErrors (lines : List String) : IO Unit := IO.eprint (printed lines)

/-- The number of an error of the system, which some calls report with a minus sign. -/
def errorNumber (code : UInt32) : Nat := min code.toNat (-code).toNat

/-- The read error behind an error of the system. -/
def readError (e : IO.Error) : ReadError :=
  match e with
  | .noFileOrDirectory _ _ _ => .notFound
  | .permissionDenied _ code _ => if errorNumber code = 13 then .denied else .other (toString e)
  | .inappropriateType _ code _ =>
    match errorNumber code with
    | 20 => .notDirectory
    | 21 => .isDirectory
    | _ => .other (toString e)
  | .invalidArgument _ code _ =>
    if errorNumber code = 36 then .nameTooLong else .other (toString e)
  | _ => .other (toString e)

/-- The bytes of a file, or the reason why they cannot be read. -/
def readProgram (path : String) : IO (Except ReadError (List UInt8)) := do
  try
    return .ok (← IO.FS.readBinFile path).toList
  catch e => return .error (readError e)

/-- The generator of the host, a byte at a time. -/
instance : Generator StdGen where
  next g :=
    let drawn := stdNext g
    (UInt8.ofNat drawn.1, drawn.2)

/-- A generator that starts from what the system offers as random. -/
def freshGenerator : IO StdGen := do
  let bytes ← IO.getRandomBytes 8
  return mkStdGen (bytes.foldl (fun n byte => 256 * n + byte.toNat) 0)

/-- Takes a session through rounds until its duration is over; the exit code. -/
partial def playInTime (s : Settings) (started previous : Nat)
    (c : Console (Terminal StdGen)) : IO UInt32 := do
  let now ← IO.monoNanosNow
  if now - started < s.durationMs * 1000000 then
    let done := c.round ⟨now - previous⟩
    printErrors (logLines s.threshold done.events)
    match done.result with
    | (.faulted f, _) =>
      printErrors (logLines s.threshold [.notice (.halted f)])
      printErrors [faultLine f]
      return 1
    | (_, screen) =>
      if let some shown := screen then
        IO.print shown.picture
      let spent := (← IO.monoNanosNow) - now
      IO.sleep (UInt32.ofNat ((refresh.nanos - spent) / 1000000))
      playInTime s started now done.state
  else
    printErrors (logLines s.threshold (closeSession c ⟨now - started⟩).events)
    return 0

/-- Answers a command line; the exit code. -/
def answer (args : List String) : IO UInt32 := do
  match read args with
  | .error e =>
    printErrors (usageLines e)
    return 2
  | .ok .help =>
    IO.print helpText
    return 0
  | .ok .version =>
    IO.print versionText
    return 0
  | .ok (.run s) =>
    match ← readProgram s.rom with
    | .error e =>
      printErrors (unreadableLines s.rom e)
      return 1
    | .ok program =>
      let now ← IO.monoNanosNow
      let opened := openSession s program (← freshGenerator)
      printErrors (logLines s.threshold opened.events)
      playInTime s now now opened.state

end Chip8.CommandLine

/-- Answers the arguments of the command line. -/
def main (args : List String) : IO UInt32 := Chip8.CommandLine.answer args
