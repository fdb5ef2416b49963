-- SUMMARY: Syntax errors.
import Lox.Diagnostic
import Lox.Token.Basic

/-!
## Syntax errors

A syntax error says what is wrong and at which token it was found.
-/

namespace Lox

inductive ParseError.Cause where
  /-- Another token was expected, which `expected` describes. -/
  | unexpectedToken (expected : String)
  | expectedIdentifier (expected : String)
  | expectedExpression
  | invalidAssignmentTarget
  deriving DecidableEq, Repr

structure ParseError where
  cause : ParseError.Cause
  found : Token

namespace ParseError

def code (e : ParseError) : ErrorCode :=
  match e.cause with
  | .unexpectedToken _ => .unexpectedToken
  | .expectedIdentifier _ => .expectedIdentifier
  | .expectedExpression => .expectedExpression
  | .invalidAssignmentTarget => .invalidAssignmentTarget

def message (e : ParseError) : String :=
  match e.cause with
  | .unexpectedToken expected => "expected " ++ expected ++ ", found " ++ e.found.shown
  | .expectedIdentifier expected => "expected " ++ expected ++ ", found " ++ e.found.shown
  | .expectedExpression => "expected expression, found " ++ e.found.shown
  | .invalidAssignmentTarget => "invalid assignment target"

def diagnostic (e : ParseError) : Diagnostic :=
  { code := e.code, message := e.message, line := some e.found.line }

end ParseError

end Lox
