-- SUMMARY: Error codes and diagnostics, the form in which every error is reported.

/-!
## Diagnostics

Every error of the scanner, the parser or a run is reported as a diagnostic: a code, a message and
the line it belongs to, if it belongs to one.
-/

namespace Lox

inductive ErrorCode where
  | unterminatedString
  | unexpectedCharacter
  | invalidNumber
  | unexpectedToken
  | expectedExpression
  | expectedIdentifier
  | invalidAssignmentTarget
  | operandType
  | undefinedVariable
  | divisionByZero
  | notCallable
  | argumentCount
  | stringTooShort
  | invalidCount
  | recursionLimit
  | nativeFailure
  | stringTooLong
  deriving DecidableEq, Repr

namespace ErrorCode

/-- The first digit tells the phase: 0 scanning, 1 parsing, 6 running. -/
def text : ErrorCode → String
  | unterminatedString => "E0001"
  | unexpectedCharacter => "E0002"
  | invalidNumber => "E0003"
  | unexpectedToken => "E1001"
  | expectedExpression => "E1002"
  | expectedIdentifier => "E1004"
  | invalidAssignmentTarget => "E1005"
  | operandType => "E6001"
  | undefinedVariable => "E6002"
  | divisionByZero => "E6003"
  | notCallable => "E6004"
  | argumentCount => "E6005"
  | stringTooShort => "E6006"
  | invalidCount => "E6007"
  | recursionLimit => "E6008"
  | nativeFailure => "E6009"
  | stringTooLong => "E6010"

def all : List ErrorCode :=
  [unterminatedString, unexpectedCharacter, invalidNumber, unexpectedToken, expectedExpression,
    expectedIdentifier, invalidAssignmentTarget, operandType, undefinedVariable, divisionByZero,
    notCallable, argumentCount, stringTooShort, invalidCount, recursionLimit, nativeFailure,
    stringTooLong]

def ofText? (s : String) : Option ErrorCode :=
  all.find? fun code => code.text == s

theorem ofText?_text (code : ErrorCode) : ofText? code.text = some code := by
  cases code <;> decide

end ErrorCode

structure Diagnostic where
  code : ErrorCode
  message : String
  line : Option Nat := none
  deriving DecidableEq, Repr

def Diagnostic.text (d : Diagnostic) : String :=
  let body := "error[" ++ d.code.text ++ "]: " ++ d.message
  match d.line with
  | some n => "[line " ++ toString n ++ "] " ++ body
  | none => body

end Lox
