-- SUMMARY: What each command does, from its arguments to its output and exit code.
import Lox.CommandLine.Config
import Lox.Run.Repl
import Lox.Token.Listing
import Lox.Tree.Printer

/-!
## Commands

A command reads a file or the standard input, writes to the two output streams and ends with an exit
code. Nothing here depends on the world: files and input are given.
-/

namespace Lox

/-- How a command ends, and what it wrote. -/
structure Ending where
  exitCode : Nat
  stdout : String := ""
  stderr : String := ""
  deriving DecidableEq, Repr

/-- What reading a file gives. -/
inductive FileContent where
  | bytes (content : ByteArray)
  | missing
  | forbidden
  /-- The file is there and cannot be read, for the given reason. -/
  | unreadable (reason : String)
  deriving Inhabited

def diagnosticLines (ds : List Diagnostic) : String :=
  String.join (ds.map fun d => d.text ++ "\n")

def UsageError.ending (e : UsageError) : Ending where
  exitCode := 64
  stderr := "error: " ++ e.message ++ "\n\n" ++ usage ++ "\n"

/-- The text of a file, or the ending of a command that cannot read it. -/
def FileContent.text (path : String) (content : FileContent) : Except Ending String :=
  let failed (message : String) : Except Ending String :=
    .error { exitCode := 66, stderr := "error: " ++ message ++ "\n" }
  match content with
  | bytes content =>
    match String.fromUTF8? content with
    | some s => .ok s
    | none => failed ("'" ++ path ++ "' contains invalid UTF-8 data")
  | missing => failed ("cannot find file '" ++ path ++ "'")
  | forbidden => failed ("permission denied reading '" ++ path ++ "'")
  | unreadable reason => failed ("error reading '" ++ path ++ "': " ++ reason)

/-- The exit code of a command that only reads source text. -/
def staticExitCode (ds : List Diagnostic) : Nat :=
  if ds.isEmpty then 0 else 65

/-- Lists the tokens of a text. -/
def lexText (source : String) : Ending :=
  let s := scan source
  let ds := s.errors.map LexicalError.diagnostic
  { exitCode := staticExitCode ds, stdout := listing s.tokens, stderr := diagnosticLines ds }

/-- Prints the trees of a text. -/
def parseText (source : String) : Ending :=
  let s := Source.ofText source
  { exitCode := staticExitCode s.diagnostics
    stdout := programText s.program
    stderr := diagnosticLines s.diagnostics }

/-- Runs a text on a machine. -/
def runText (fuel : Nat) (source : String) (m : Machine) : Option Ending :=
  (runSource fuel source m).map fun (o, _) =>
    { exitCode := o.exitCode
      stdout := o.printed
      stderr := diagnosticLines (o.static ++ o.runtime.toList) }

/-- The ending of an interactive session. -/
def Repl.ending (r : Repl) : Ending :=
  let stdout := String.join (r.shown.map fun s => s.promptText ++ s.printedText)
  let stderr := String.join (r.shown.map Shown.errorText)
  if r.ended then
    { exitCode := 0, stdout, stderr }
  else
    { exitCode := 70, stdout, stderr := stderr ++ "error: " ++ invalidLineMessage ++ "\n" }

/-- The machine that commands run on. Its clock stands still. -/
def Config.machine (c : Config) (now : Float) : Machine :=
  .start c.options.callLimit [.clock now] 1

/-- Does what the configuration says. There is no ending if the run is cut off. -/
def Config.execute (fuel : Nat) (now : Float) (read : String → FileContent) (stdin : List UInt8)
    (c : Config) : Option Ending :=
  match c.command, c.options.path? with
  | .repl, _ => (repl fuel (byteLines stdin) (c.machine now)).map Repl.ending
  | command, none =>
    some { exitCode := 64, stderr := "error: '" ++ command.name ++ "' requires a file path\n" }
  | command, some path =>
    match (read path).text path with
    | .error ending => some ending
    | .ok source =>
      match command with
      | .lex => some (lexText source)
      | .parse => some (parseText source)
      | _ => runText fuel source (c.machine now)

/-- Does what the arguments say. -/
def execute (fuel : Nat) (now : Float) (read : String → FileContent) (stdin : List UInt8)
    (arguments : List String) : Option Ending :=
  match Config.ofArguments arguments with
  | .error e => some e.ending
  | .ok c => c.execute fuel now read stdin

end Lox
