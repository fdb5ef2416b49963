-- SUMMARY: Lexical errors.
import Lox.Diagnostic
import Lox.Token.Basic

/-!
## Lexical errors

A piece of text that no token is written as. It stands in the token list as an error token.
-/

namespace Lox

inductive LexicalError.Cause where
  | unterminatedString
  | unexpectedCharacter (c : Char)
  | invalidNumber
  deriving DecidableEq, Repr

structure LexicalError where
  cause : LexicalError.Cause
  lexeme : String
  line : Nat
  deriving DecidableEq, Repr

namespace LexicalError

def code (e : LexicalError) : ErrorCode :=
  match e.cause with
  | .unterminatedString => .unterminatedString
  | .unexpectedCharacter _ => .unexpectedCharacter
  | .invalidNumber => .invalidNumber

def message (e : LexicalError) : String :=
  match e.cause with
  | .unterminatedString => "unterminated string"
  | .unexpectedCharacter c => "unexpected character '" ++ String.singleton c ++ "'"
  | .invalidNumber => "invalid number literal '" ++ e.lexeme ++ "'"

def diagnostic (e : LexicalError) : Diagnostic :=
  { code := e.code, message := e.message, line := some e.line }

/-- The token that stands for the text in the token list. -/
def token (e : LexicalError) : Token :=
  { kind := .error, lexeme := e.lexeme, line := e.line }

end LexicalError

end Lox
