-- SUMMARY: Interactive sessions: one line after the other on one machine.
import Lox.Run.Session
import Lox.Text.Blank
import Lox.Text.Lines

/-!
## Interactive sessions

A session shows a prompt, reads a line and runs it, until the input ends. Blank lines are not run.
Errors of a line are reported and do not end the session; a line that is not UTF-8 does.
-/

namespace Lox

/-- What a session shows, in order. -/
inductive Shown where
  | prompt
  | inputEnded
  | printed (text : String)
  | reported (d : Diagnostic)
  deriving DecidableEq, Repr

namespace Shown

/-- What goes to the stream of prompts. -/
def promptText : Shown → String
  | prompt => "> "
  | inputEnded => "\n"
  | _ => ""

/-- What goes to the stream of printed text. -/
def printedText : Shown → String
  | printed text => text
  | _ => ""

/-- What goes to the stream of errors. -/
def errorText : Shown → String
  | reported d => d.text ++ "\n"
  | _ => ""

end Shown

/-- One line of a session. -/
def replLine (fuel : Nat) (line : String) (m : Machine) : Option (List Shown × Machine) :=
  if isBlankLine line then
    some ([], m)
  else
    match runSource fuel line m with
    | none => none
    | some (o, m) =>
      let shown := o.static.map .reported ++ .printed o.printed :: o.runtime.toList.map .reported
      some (shown, m)

/-- How a session ended. -/
structure Repl where
  shown : List Shown
  machine : Machine
  /-- Whether the input ended, and not the session at a line that is not UTF-8. -/
  ended : Bool

/-- The message for a line that is not UTF-8. -/
def invalidLineMessage : String := "stream did not contain valid UTF-8"

/-- A session over the lines of its input. -/
def repl (fuel : Nat) : List (List UInt8) → Machine → Option Repl
  | [], m => some { shown := [.prompt, .inputEnded], machine := m, ended := true }
  | line :: lines, m =>
    match String.fromUTF8? line.toByteArray with
    | none => some { shown := [.prompt], machine := m, ended := false }
    | some text =>
      match replLine fuel text m with
      | none => none
      | some (shown, m) =>
        (repl fuel lines m).map fun r => { r with shown := .prompt :: shown ++ r.shown }

end Lox
