-- SUMMARY: Running source text, once or piece by piece on one machine.
import Lox.Parse.Program
import Lox.Run.Eval
import Lox.Token.Scan

/-!
## Sessions

The front end turns source text into a program and the diagnostics of what is wrong with it. What
could be read is run, also if there are diagnostics. A machine keeps its globals from one run to the
next.
-/

namespace Lox

/-- What the front end makes of a source text. -/
structure Source where
  program : List Stmt
  lexical : List LexicalError
  syntactic : List ParseError

namespace Source

def ofText (source : String) : Source :=
  let s := scan source
  let p := parse s.tokens
  { program := p.statements, lexical := s.errors, syntactic := p.errors }

/-- The diagnostics, those of the scanner first. -/
def diagnostics (s : Source) : List Diagnostic :=
  s.lexical.map LexicalError.diagnostic ++ s.syntactic.map ParseError.diagnostic

end Source

/-- What a run of source text did. -/
structure Outcome where
  static : List Diagnostic
  printed : String
  runtime : Option Diagnostic

/-- The exit code of a run: an error at run time counts more than those found before. -/
def Outcome.exitCode (o : Outcome) : Nat :=
  if o.runtime.isSome then 70 else if o.static.isEmpty then 0 else 65

/-- Runs source text on a machine. -/
def runSource (fuel : Nat) (source : String) (m : Machine) : Option (Outcome × Machine) :=
  let s := Source.ofText source
  match interpret fuel s.program m with
  | none => none
  | some (r, m) =>
    let (printed, m) := m.flush
    let runtime :=
      match r with
      | .ok () => none
      | .error e => some e.diagnostic
    some ({ static := s.diagnostics, printed, runtime }, m)

end Lox
