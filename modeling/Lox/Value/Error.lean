-- SUMMARY: Runtime errors.
import Lox.Diagnostic
import Lox.Value.Basic

/-!
## Runtime errors

An operator does not know where it stands. Its errors are faults, and become runtime errors when
the node that failed adds its line.
-/

namespace Lox

/-- What went wrong. -/
inductive Fault where
  | binaryOperands (op : BinaryOp) (left right : ValueType)
  | unaryOperand (op : UnaryOp) (operand : ValueType)
  | undefinedVariable (name : String)
  | divisionByZero
  | stringTooShort (length count : Nat)
  | invalidCount (count : Float)
  | stringTooLong (size count limit : Nat)
  | notCallable (type : String)
  | argumentCount (name : String) (expected got : Nat)
  | recursionLimit (limit : Nat)
  | nativeFailure (name message : String)

namespace Fault

def code : Fault → ErrorCode
  | binaryOperands .. => .operandType
  | unaryOperand .. => .operandType
  | undefinedVariable _ => .undefinedVariable
  | divisionByZero => .divisionByZero
  | stringTooShort .. => .stringTooShort
  | invalidCount _ => .invalidCount
  | stringTooLong .. => .stringTooLong
  | notCallable _ => .notCallable
  | argumentCount .. => .argumentCount
  | recursionLimit _ => .recursionLimit
  | nativeFailure .. => .nativeFailure

def message : Fault → String
  | binaryOperands op left right =>
    "operator '" ++ op.symbol ++ "' cannot be applied to " ++ left.name ++ " and " ++ right.name
  | unaryOperand op operand =>
    "operator '" ++ op.symbol ++ "' cannot be applied to " ++ operand.name
  | undefinedVariable name => "undefined variable '" ++ name ++ "'"
  | divisionByZero => "division by zero"
  | stringTooShort length count =>
    "cannot shorten string beyond itself (length " ++ toString length ++ ", removing "
      ++ toString count ++ ")"
  | invalidCount count =>
    "count must be a non-negative whole number, got " ++ Number.text count
  | stringTooLong size count limit =>
    "repeating a " ++ toString size ++ "-byte string " ++ toString count ++ " times exceeds the "
      ++ toString limit ++ "-byte limit"
  | notCallable type => type ++ " is not callable"
  | argumentCount name expected got =>
    name ++ " expects " ++ toString expected ++ (if expected = 1 then " argument" else " arguments")
      ++ ", got " ++ toString got
  | recursionLimit limit =>
    "maximum recursion depth exceeded (limit: " ++ toString limit ++ ")"
  | nativeFailure name message => name ++ ": " ++ message

end Fault

structure RuntimeError where
  fault : Fault
  line : Option Nat := none

def RuntimeError.diagnostic (e : RuntimeError) : Diagnostic :=
  { code := e.fault.code, message := e.fault.message, line := e.line }

end Lox
