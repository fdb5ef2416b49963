-- SUMMARY: A place in a token list, and the steps that a parser takes from there.
import Lox.Parse.Error

/-!
## Cursors

A cursor stands between the tokens that were taken and the rest. It only moves forward, and never
past a token that ends the list: behind the last token it sees such a token on line zero.
-/

namespace Lox

/-- A place in a token list. The token that was taken last comes first in `taken`. -/
structure Cursor where
  taken : List Token
  rest : List Token

namespace Cursor

def ofTokens (ts : List Token) : Cursor where
  taken := []
  rest := ts

def tokens (c : Cursor) : List Token :=
  c.taken.reverse ++ c.rest

def position (c : Cursor) : Nat :=
  c.taken.length

def current (c : Cursor) : Token :=
  c.rest.head?.getD (.endOfFile 0)

def previous? (c : Cursor) : Option Token :=
  c.taken.head?

/-- The tokens from position `start` on that were taken. -/
def takenSince (c : Cursor) (start : Nat) : List Token :=
  c.taken.reverse.drop start

def atEnd (c : Cursor) : Bool :=
  c.current.kind == .endOfFile

def sees (c : Cursor) (kind : Kind) : Bool :=
  c.current.kind == kind

/-- Moves past the current token, but not past the end. -/
def next (c : Cursor) : Cursor :=
  match c.rest with
  | [] => c
  | t :: ts => if t.kind = .endOfFile then c else ⟨t :: c.taken, ts⟩

/-- Takes the current token. -/
def advance (c : Cursor) : Token × Cursor :=
  (c.current, c.next)

/-- Takes the current token if it is of the given kind. -/
def eat (c : Cursor) (kind : Kind) : Bool × Cursor :=
  if c.sees kind then (true, c.next) else (false, c)

/-- Takes a token of the given kind, which `expected` describes in the error message. -/
def expect (c : Cursor) (kind : Kind) (expected : String) : Except ParseError Token × Cursor :=
  if c.sees kind then
    (.ok c.current, c.next)
  else
    (.error ⟨.unexpectedToken expected, c.current⟩, c)

def expectIdentifier (c : Cursor) (expected : String) : Except ParseError Token × Cursor :=
  if c.sees .identifier then
    (.ok c.current, c.next)
  else
    (.error ⟨.expectedIdentifier expected, c.current⟩, c)

/-- A cursor moves over its tokens and does not change them. -/
theorem tokens_next (c : Cursor) : c.next.tokens = c.tokens := by
  unfold next
  split
  · rfl
  · next t ts h =>
    split
    · rfl
    · simp [tokens, h]

end Cursor

end Lox
