-- SUMMARY: Tokens, trees, values, machines and errors without their line numbers.
import Lox.Run.Session

/-!
## Without lines

Every node of a tree and every error carries a line number. To say that two things are equal up to
line numbers, all their line numbers are set to zero. Nothing but diagnostics depends on them, and
of a diagnostic only the line.
-/

namespace Lox

-- ---------------------------------------------------------------------------
-- Tokens and errors
-- ---------------------------------------------------------------------------

def Token.unlined (t : Token) : Token :=
  { t with line := 0 }

def Diagnostic.unlined (d : Diagnostic) : Diagnostic :=
  { d with line := d.line.map fun _ => 0 }

def LexicalError.unlined (e : LexicalError) : LexicalError :=
  { e with line := 0 }

def ParseError.unlined (e : ParseError) : ParseError :=
  { e with found := e.found.unlined }

def RuntimeError.unlined (e : RuntimeError) : RuntimeError :=
  { e with line := e.line.map fun _ => 0 }

theorem RuntimeError.diagnostic_unlined (e : RuntimeError) :
    e.unlined.diagnostic = e.diagnostic.unlined := rfl

-- ---------------------------------------------------------------------------
-- Trees
-- ---------------------------------------------------------------------------

def Name.unlined (name : Name) : Name :=
  { name with line := 0 }

mutual

def Expr.unlined : Expr → Expr
  | .literal value _ => .literal value 0
  | .var name _ => .var name 0
  | .assign name value _ => .assign name value.unlined 0
  | .binary op left right _ => .binary op left.unlined right.unlined 0
  | .logical op left right _ => .logical op left.unlined right.unlined 0
  | .unary op operand _ => .unary op operand.unlined 0
  | .group inner _ => .group inner.unlined 0
  | .call callee arguments _ => .call callee.unlined (Expr.unlinedAll arguments) 0

def Expr.unlinedAll : List Expr → List Expr
  | [] => []
  | e :: es => e.unlined :: Expr.unlinedAll es

end

mutual

def Stmt.unlined : Stmt → Stmt
  | .expr value _ => .expr value.unlined 0
  | .print value _ => .print value.unlined 0
  | .var name initial _ => .var name.unlined initial.unlined 0
  | .block body _ => .block (Stmt.unlinedAll body) 0
  | .branch condition yes no _ => .branch condition.unlined yes.unlined (Stmt.unlinedElse no) 0
  | .loop condition body _ => .loop condition.unlined body.unlined 0
  | .func name parameters body _ =>
    .func name.unlined (parameters.map Name.unlined) (Stmt.unlinedAll body) 0
  | .ret value _ => .ret value.unlined 0

def Stmt.unlinedAll : List Stmt → List Stmt
  | [] => []
  | s :: ss => s.unlined :: Stmt.unlinedAll ss

def Stmt.unlinedElse : Option Stmt → Option Stmt
  | none => none
  | some s => some s.unlined

end

@[simp] theorem Expr.line_unlined (e : Expr) : e.unlined.line = 0 := by
  cases e <;> rfl

@[simp] theorem Stmt.line_unlined (s : Stmt) : s.unlined.line = 0 := by
  cases s <;> rfl

theorem Stmt.unlined_ofExpr (e : Expr) : (ofExpr e).unlined = ofExpr e.unlined := by
  rw [ofExpr, ofExpr, Expr.line_unlined]
  rfl

theorem Stmt.unlined_forLoop (initial : Option Stmt) (condition : Expr) (update : Option Expr)
    (body : Stmt) (line : Nat) :
    (forLoop initial condition update body line).unlined =
      forLoop (Stmt.unlinedElse initial) condition.unlined (update.map Expr.unlined)
        body.unlined 0 := by
  cases update <;> cases initial <;>
    simp [forLoop, unlined, unlinedAll, unlinedElse, unlined_ofExpr]

/-- A name that is declared is the same with and without its line. -/
theorem Name.map_text_unlined (names : List Name) :
    (names.map Name.unlined).map Name.text = names.map Name.text := by
  rw [List.map_map]
  rfl

-- ---------------------------------------------------------------------------
-- Values and machines
-- ---------------------------------------------------------------------------

def Function.unlined (f : Function) : Function :=
  { f with body := Stmt.unlinedAll f.body }

def Value.unlined : Value → Value
  | .function f => .function f.unlined
  | v => v

def Completion.unlined : Completion → Completion
  | .normal => .normal
  | .returned v => .returned v.unlined

def unlinedBindings (bs : List (String × Value)) : List (String × Value) :=
  bs.map fun (name, v) => (name, v.unlined)

def Scope.unlined (s : Scope) : Scope :=
  { s with bindings := unlinedBindings s.bindings }

def Store.unlined (σ : Store) : Store where
  scopes := σ.scopes.map Scope.unlined

/-- A machine without line numbers, behind an earlier output. -/
def Machine.behind (earlier : String) (m : Machine) : Machine :=
  { m with store := m.store.unlined, output := earlier ++ m.output }

def Machine.unlined (m : Machine) : Machine :=
  { m with store := m.store.unlined }

end Lox
