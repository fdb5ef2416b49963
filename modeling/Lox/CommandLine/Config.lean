-- SUMMARY: Command lines: commands, options and what can be wrong with them.
import Lox.Number.Text
import Lox.Run.Machine

/-!
## Command lines

The first argument is the command. Options may stand anywhere behind it, the last of several counts;
all commands but the interactive one need one path. The first argument that is wrong is reported.
-/

namespace Lox

inductive Command where
  | run | repl | lex | parse
  deriving DecidableEq, Repr

namespace Command

def name : Command → String
  | run => "run"
  | repl => "repl"
  | lex => "lex"
  | parse => "parse"

def all : List Command := [run, repl, lex, parse]

def ofName? (s : String) : Option Command :=
  all.find? fun c => c.name == s

theorem ofName?_name (c : Command) : ofName? c.name = some c := by
  cases c <;> decide

def takesPath : Command → Bool
  | repl => false
  | _ => true

end Command

inductive UsageError where
  | missingCommand
  | unknownCommand (name : String)
  | missingPath (command : Command)
  | unexpectedArgument (argument : String)
  | invalidCallLimit (value : String)
  deriving DecidableEq, Repr

def UsageError.message : UsageError → String
  | missingCommand => "missing command"
  | unknownCommand name => "unknown command '" ++ name ++ "'"
  | missingPath command => "'" ++ command.name ++ "' requires a file path"
  | unexpectedArgument argument => "unexpected argument '" ++ argument ++ "'"
  | invalidCallLimit value => "invalid value for --max-depth: '" ++ value ++ "'"

/-- What stands behind the command. -/
structure Options where
  path? : Option String := none
  callLimit : Nat := defaultCallLimit
  deriving DecidableEq, Repr

structure Config where
  command : Command
  options : Options
  deriving DecidableEq, Repr

/-- What follows the option's name and equals sign, if `argument` is the option for the limit. -/
def limitValue? (argument : String) : Option (List Char) :=
  let flag := "--max-depth=".toList
  if flag.isPrefixOf argument.toList then some (argument.toList.drop flag.length) else none

/-- A limit is written in digits, perhaps behind a plus sign, and is a positive 64-bit word. -/
def readLimit? (value : List Char) : Option Nat :=
  let digits :=
    match value with
    | '+' :: cs => cs
    | cs => cs
  let n := Number.digitsValue digits
  if digits ≠ [] ∧ digits.all Char.isDigit = true ∧ 0 < n ∧ n < Nat.pow 2 64 then some n else none

/-- The options with one more argument. -/
def Options.add (command : Command) (o : Options) (argument : String) :
    Except UsageError Options :=
  match limitValue? argument with
  | some value =>
    match readLimit? value with
    | some n => .ok { o with callLimit := n }
    | none => .error (.invalidCallLimit (String.ofList value))
  | none =>
    if argument.toList.head? ≠ some '-' ∧ o.path? = none ∧ command.takesPath = true then
      .ok { o with path? := some argument }
    else
      .error (.unexpectedArgument argument)

def Options.addAll (command : Command) : Options → List String → Except UsageError Options
  | o, [] => .ok o
  | o, argument :: rest => do addAll command (← o.add command argument) rest

/-- The configuration that the arguments stand for. The name of the program is not among them. -/
def Config.ofArguments : List String → Except UsageError Config
  | [] => .error .missingCommand
  | name :: arguments => do
    match Command.ofName? name with
    | none => .error (.unknownCommand name)
    | some command =>
      let options ← Options.addAll command { } arguments
      if command.takesPath = true ∧ options.path? = none then
        .error (.missingPath command)
      else
        return { command, options }

/-- What is shown when the command line is wrong. -/
def usage : String :=
  "\n".intercalate
    ["Usage: loxc <command> [options]",
      "",
      "Commands:",
      "  run <file>     Run a Lox script",
      "  repl           Start an interactive session",
      "  lex <file>     Print the token stream",
      "  parse <file>   Print the syntax tree",
      "",
      "Options:",
      "  --max-depth=N  Maximum nested function calls (default: 1024)",
      "",
      "Logging:",
      "  LOX_LOG=debug  Enable tracing output on stderr (falls back to RUST_LOG)"]

end Lox
