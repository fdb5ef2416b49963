-- SUMMARY: Tokens and literals.
import Lox.Number.Text
import Lox.Token.Kind

/-!
## Tokens

A token is a kind, the text it was read from, the literal it stands for, if any, and its line.
Lines are counted from one.
-/

namespace Lox

inductive Literal where
  | number (x : Float)
  | string (s : String)
  | boolean (b : Bool)
  | nil

/-- A literal as a run would print it. -/
def Literal.text : Literal → String
  | number x => Number.text x
  | string s => s
  | boolean b => if b then "true" else "false"
  | nil => "nil"

structure Token where
  kind : Kind
  lexeme : String
  line : Nat
  literal : Option Literal := none

namespace Token

/-- The token that ends a token list. -/
def endOfFile (line : Nat) : Token :=
  { kind := .endOfFile, lexeme := "", line }

/-- A token as messages show it. -/
def shown (t : Token) : String :=
  if t.kind = .endOfFile then Kind.endOfFile.label else "'" ++ t.lexeme ++ "'"

end Token

end Lox
