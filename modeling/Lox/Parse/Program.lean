-- SUMMARY: Parsing token lists into programs.
import Lox.Parse.Grammar
import Lox.Parse.Recovery

/-!
## Programs

A program is a list of declarations. Each declaration gives a statement or an error.
-/

namespace Lox

/-- Enough fuel for a phrase at the cursor. -/
def Cursor.budget (c : Cursor) : Nat :=
  16 * (c.rest.length + 1)

/-- The declaration at the cursor, or the error that it ends with. -/
def parseDeclaration (c : Cursor) : Except ParseError Stmt × Cursor :=
  (Parse.declaration c.budget c).getD (.error ⟨.expectedExpression, c.current⟩, c)

/-- The outcome of parsing. -/
structure Parsed where
  statements : List Stmt := []
  errors : List ParseError := []

/-- At most `n` declarations. -/
def declarationsWithin : Nat → Cursor → Parsed
  | 0, _ => { }
  | n + 1, c =>
    if c.atEnd then
      { }
    else
      match parseDeclaration c with
      | (.ok s, d) =>
        let more := declarationsWithin n d
        { more with statements := s :: more.statements }
      | (.error e, d) =>
        let more := declarationsWithin n (d.skipDeclaration c.position)
        { more with errors := e :: more.errors }

/-- Parses a token list. A declaration takes at least one token, so there are no more declarations
than tokens. -/
def parse (ts : List Token) : Parsed :=
  declarationsWithin ts.length (.ofTokens ts)

end Lox
