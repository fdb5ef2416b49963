-- SUMMARY: Syntax trees: operators, expressions and statements.
import Lox.Token.Basic

/-!
## Syntax trees

Every node carries the line that errors at it are reported with. Names that are declared keep the
line of their own token; a name that is read or assigned stands on the line of its node.
-/

namespace Lox

-- ---------------------------------------------------------------------------
-- Operators
-- ---------------------------------------------------------------------------

inductive BinaryOp where
  | add | sub | mul | div
  | less | lessEqual | greater | greaterEqual
  | equal | notEqual
  deriving DecidableEq, Repr

namespace BinaryOp

def symbol : BinaryOp → String
  | add => "+"
  | sub => "-"
  | mul => "*"
  | div => "/"
  | less => "<"
  | lessEqual => "<="
  | greater => ">"
  | greaterEqual => ">="
  | equal => "=="
  | notEqual => "!="

def all : List BinaryOp :=
  [add, sub, mul, div, less, lessEqual, greater, greaterEqual, equal, notEqual]

def ofSymbol? (s : String) : Option BinaryOp :=
  all.find? fun op => op.symbol == s

theorem ofSymbol?_symbol (op : BinaryOp) : ofSymbol? op.symbol = some op := by
  cases op <;> decide

end BinaryOp

inductive LogicalOp where
  | and | or
  deriving DecidableEq, Repr

namespace LogicalOp

def symbol : LogicalOp → String
  | and => "and"
  | or => "or"

def all : List LogicalOp := [and, or]

def ofSymbol? (s : String) : Option LogicalOp :=
  all.find? fun op => op.symbol == s

theorem ofSymbol?_symbol (op : LogicalOp) : ofSymbol? op.symbol = some op := by
  cases op <;> decide

end LogicalOp

inductive UnaryOp where
  | not | neg
  deriving DecidableEq, Repr

namespace UnaryOp

def symbol : UnaryOp → String
  | not => "!"
  | neg => "-"

def all : List UnaryOp := [not, neg]

def ofSymbol? (s : String) : Option UnaryOp :=
  all.find? fun op => op.symbol == s

theorem ofSymbol?_symbol (op : UnaryOp) : ofSymbol? op.symbol = some op := by
  cases op <;> decide

end UnaryOp


-- ---------------------------------------------------------------------------
-- Expressions
-- ---------------------------------------------------------------------------

inductive Expr where
  | literal (value : Literal) (line : Nat)
  | var (name : String) (line : Nat)
  | assign (name : String) (value : Expr) (line : Nat)
  | binary (op : BinaryOp) (left right : Expr) (line : Nat)
  | logical (op : LogicalOp) (left right : Expr) (line : Nat)
  | unary (op : UnaryOp) (operand : Expr) (line : Nat)
  | group (inner : Expr) (line : Nat)
  | call (callee : Expr) (arguments : List Expr) (line : Nat)

def Expr.line : Expr → Nat
  | literal _ line => line
  | var _ line => line
  | assign _ _ line => line
  | binary _ _ _ line => line
  | logical _ _ _ line => line
  | unary _ _ line => line
  | group _ line => line
  | call _ _ line => line


-- ---------------------------------------------------------------------------
-- Statements
-- ---------------------------------------------------------------------------

/-- A name in the place where it is declared. -/
structure Name where
  text : String
  line : Nat
  deriving DecidableEq, Repr

inductive Stmt where
  | expr (value : Expr) (line : Nat)
  | print (value : Expr) (line : Nat)
  | var (name : Name) (initial : Expr) (line : Nat)
  | block (body : List Stmt) (line : Nat)
  | branch (condition : Expr) (yes : Stmt) (no : Option Stmt) (line : Nat)
  | loop (condition : Expr) (body : Stmt) (line : Nat)
  | func (name : Name) (parameters : List Name) (body : List Stmt) (line : Nat)
  | ret (value : Expr) (line : Nat)

def Stmt.line : Stmt → Nat
  | expr _ line => line
  | print _ line => line
  | var _ _ line => line
  | block _ line => line
  | branch _ _ _ line => line
  | loop _ _ line => line
  | func _ _ _ line => line
  | ret _ line => line

/-- An expression as a statement. -/
def Stmt.ofExpr (e : Expr) : Stmt :=
  .expr e e.line

/-- A for loop is a loop whose body ends with the update, in a block that starts with the initial
statement. -/
def Stmt.forLoop (initial : Option Stmt) (condition : Expr) (update : Option Expr) (body : Stmt)
    (line : Nat) : Stmt :=
  let body :=
    match update with
    | some e => .block [body, .ofExpr e] body.line
    | none => body
  match initial with
  | some s => .block [s, .loop condition body line] line
  | none => .loop condition body line

end Lox
