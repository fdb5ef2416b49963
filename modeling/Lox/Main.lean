-- SUMMARY: The program: reads arguments, files and standard input, writes what the commands say.
import Std.Time.DateTime.Timestamp
import Lox.CommandLine.Basic

/-!
## The program

Commands that read a file are carried out as a whole. An interactive session is carried out line by
line, so that every answer is seen before the next line is typed. The clock is read before a command
and before every line of a session, and stands still while it is carried out.
-/

namespace Lox

/-- More than any run that ends takes. -/
def mainFuel : Nat := Nat.pow 2 60

/-- The seconds since the start of 1970. -/
def unixSeconds : IO Float := do
  let nanoseconds := (← Std.Time.Timestamp.now).toNanosecondsSinceUnixEpoch.val.toNat
  return Float.ofNat (nanoseconds / 1000000000) + Float.ofNat (nanoseconds % 1000000000) / 1e9

/-- A fault of the system as it is reported: what it says, with its number. Some faults come with
the number negated and without the capital. -/
def systemFault (code : UInt32) (details : String) : FileContent :=
  let number := if code < 0x80000000 then code else 0 - code
  .unreadable (details.capitalize ++ " (os error " ++ toString number ++ ")")

/-- Reads a file. -/
def readContent (path : String) : IO FileContent := do
  try
    return .bytes (← IO.FS.readBinFile path)
  catch e =>
    match e with
    | .noFileOrDirectory .. => return .missing
    | .permissionDenied .. => return .forbidden
    | .inappropriateType _ code details => return systemFault code details
    | .invalidArgument _ code details => return systemFault code details
    | .resourceExhausted _ code details => return systemFault code details
    | .otherError code details => return systemFault code details
    | e => return .unreadable (toString e)

/-- The bytes of a line with its break, none at the end of the input. The line so far comes last
byte first. -/
partial def readLineBytes (input : IO.FS.Stream) (line : List UInt8) : IO (List UInt8) := do
  let bytes ← input.read 1
  match bytes.toList with
  | [] => return line.reverse
  | byte :: _ =>
    if byte = 10 then
      return (byte :: line).reverse
    else
      readLineBytes input (byte :: line)

def writeShown (shown : List Shown) : IO Unit := do
  for s in shown do
    IO.print (s.promptText ++ s.printedText)
    IO.eprint s.errorText
  (← IO.getStdout).flush

/-- The machine with another time on its clock. -/
def Machine.showing (now : Float) (m : Machine) : Machine :=
  { m with builtins := [.clock now] }

/-- The rest of an interactive session. -/
partial def runSession (input : IO.FS.Stream) (m : Machine) : IO UInt32 := do
  writeShown [.prompt]
  match byteLines (← readLineBytes input []) with
  | [] =>
    writeShown [.inputEnded]
    return 0
  | line :: _ =>
    match String.fromUTF8? line.toByteArray with
    | none =>
      IO.eprintln ("error: " ++ invalidLineMessage)
      return 70
    | some text =>
      match replLine mainFuel text (m.showing (← unixSeconds)) with
      | none => return 70
      | some (shown, m) =>
        writeShown shown
        runSession input m

def runCommand (arguments : List String) : IO UInt32 := do
  let now ← unixSeconds
  match Config.ofArguments arguments with
  | .ok c =>
    if c.command = .repl then
      return ← runSession (← IO.getStdin) (c.machine now)
  | .error _ => pure ()
  let content ←
    match Config.ofArguments arguments with
    | .ok { options := { path? := some path, .. }, .. } => readContent path
    | _ => pure .missing
  match execute mainFuel now (fun _ => content) [] arguments with
  | none => return 70
  | some ending =>
    IO.print ending.stdout
    IO.eprint ending.stderr
    return ending.exitCode.toUInt32

end Lox

def main (arguments : List String) : IO UInt32 :=
  Lox.runCommand arguments
