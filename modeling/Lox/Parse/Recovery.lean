-- SUMMARY: Where parsing goes on after a syntax error.
import Lox.Parse.Cursor

/-!
## Recovery

A syntax error costs the declaration that it is in. The rest of that declaration is skipped: up to
a semicolon outside braces, or up to the brace that closes the outermost open one. A declaration
that may hold statements goes on at an `else` after such a place. One that may not also ends before
a token that starts a statement.
-/

namespace Lox

/-- The braces that are open after some tokens. -/
structure Nesting where
  depth : Nat := 0
  /-- Whether the last token closed the outermost open brace. -/
  closed : Bool := false
  deriving DecidableEq, Repr

namespace Nesting

/-- The nesting after one more token. A closing brace that closes nothing does not count. -/
def step (n : Nesting) : Kind → Nesting
  | .leftBrace => { depth := n.depth + 1 }
  | .rightBrace => if 0 < n.depth then { depth := n.depth - 1, closed := n.depth == 1 } else { }
  | _ => { depth := n.depth }

def ofTokens (ts : List Token) : Nesting :=
  ts.foldl (fun n t => n.step t.kind) { }

end Nesting

/-- The kinds that start a statement. -/
def Kind.startsStatement : Kind → Bool
  | .kwFun | .kwVar | .kwFor | .kwIf | .kwWhile | .kwPrint | .kwReturn => true
  | _ => false

/-- The kinds that start a declaration which may hold statements. -/
def Kind.startsCompound : Kind → Bool
  | .kwFun | .kwFor | .kwIf | .kwWhile | .leftBrace => true
  | _ => false

/-- Whether a declaration ends between the tokens `last?` and `next`. -/
def declarationEnds (compound : Bool) (nesting : Nesting) (last? : Option Token) (next : Kind) :
    Bool :=
  let ended := nesting.closed || last?.any fun t => t.kind == .semicolon
  nesting.depth == 0 &&
    ((ended && !(compound && next == .kwElse)) || (!compound && next.startsStatement))

/-- Moves on to the first place where the declaration ends. -/
def skipFrom (compound : Bool) : Nesting → List Token → List Token → Cursor
  | _, taken, [] => ⟨taken, []⟩
  | nesting, taken, t :: rest =>
    if t.kind = .endOfFile ∨ declarationEnds compound nesting taken.head? t.kind = true then
      ⟨taken, t :: rest⟩
    else
      skipFrom compound (nesting.step t.kind) (t :: taken) rest

/-- Skips the rest of the declaration that started at position `start`, at least one token. -/
def Cursor.skipDeclaration (c : Cursor) (start : Nat) : Cursor :=
  let c := if c.position = start then c.next else c
  let consumed := c.takenSince start
  let compound := (consumed.head?.map fun t => t.kind.startsCompound).getD false
  skipFrom compound (Nesting.ofTokens consumed) c.taken c.rest

end Lox
