-- SUMMARY: The grammar: one function per phrase, from the token at the cursor on.
import Lox.Attempt
import Lox.Parse.Cursor
import Lox.Tree.Basic

/-!
## Grammar

    declaration = fun | var | statement
    statement   = for | if | print | return | while | block | expression ";"
    expression  = operators [ "=" expression ]
    operators   = unary, joined by the operators of six levels; all of them group to the left
    unary       = { "!" | "-" } call
    call        = primary { "(" arguments ")" | "." name }
    primary     = literal | name | "(" expression ")"

Every function looks at the current token only. The first argument is fuel: each phrase inside a
phrase has one unit less. A phrase nests at most fifteen deep before it takes a token, so a budget
of sixteen for every token is enough.
-/

namespace Lox

abbrev Parse (α : Type) : Type :=
  Attempt ParseError Cursor α

/-- The levels of binary operators. -/
inductive Level where
  | or | and | equality | comparison | sum | product
  deriving DecidableEq, Repr

/-- The levels from the loosest to the tightest. -/
def Level.all : List Level :=
  [or, and, equality, comparison, sum, product]

/-- The node that an operator of a level makes of its operands and its line. -/
def Level.join? : Level → Kind → Option (Expr → Expr → Nat → Expr)
  | or, .or => some (.logical .or)
  | and, .and => some (.logical .and)
  | equality, .equalEqual => some (.binary .equal)
  | equality, .bangEqual => some (.binary .notEqual)
  | comparison, .less => some (.binary .less)
  | comparison, .lessEqual => some (.binary .lessEqual)
  | comparison, .greater => some (.binary .greater)
  | comparison, .greaterEqual => some (.binary .greaterEqual)
  | sum, .plus => some (.binary .add)
  | sum, .minus => some (.binary .sub)
  | product, .star => some (.binary .mul)
  | product, .slash => some (.binary .div)
  | _, _ => none

def UnaryOp.ofKind? : Kind → Option UnaryOp
  | .bang => some .not
  | .minus => some .neg
  | _ => none

namespace Parse

-- ---------------------------------------------------------------------------
-- Steps
-- ---------------------------------------------------------------------------

def current : Parse Token :=
  Attempt.gets Cursor.current

def advance : Parse Token :=
  Attempt.step Cursor.advance

def atEnd : Parse Bool :=
  Attempt.gets Cursor.atEnd

def sees (kind : Kind) : Parse Bool :=
  Attempt.gets fun c => c.sees kind

def eat (kind : Kind) : Parse Bool :=
  Attempt.step fun c => c.eat kind

def expect (kind : Kind) (expected : String) : Parse Token :=
  Attempt.tryStep fun c => c.expect kind expected

def expectIdentifier (expected : String) : Parse Token :=
  Attempt.tryStep fun c => c.expectIdentifier expected

/-- A name in the place where it is declared. -/
def declaredName (expected : String) : Parse Name := do
  let t ← expectIdentifier expected
  return ⟨t.lexeme, t.line⟩

/-- Takes the current token, a literal or a name. -/
def leaf (e : Expr) : Parse Expr := do
  let _ ← advance
  return e


-- ---------------------------------------------------------------------------
-- Expressions
-- ---------------------------------------------------------------------------

mutual

/-- An assignment or a plain expression. What stands before the equals sign is read as an expression
first, and only afterwards has to be a variable. -/
def expression : Nat → Parse Expr
  | 0 => Attempt.cutOff
  | n + 1 => do
    let target ← operators n Level.all
    if ← sees .equal then
      let equal ← advance
      let value ← expression n
      match target with
      | .var name line => return .assign name value line
      | _ => Attempt.fail ⟨.invalidAssignmentTarget, equal⟩
    else
      return target

/-- Operands joined by the operators of the given levels. -/
def operators : Nat → List Level → Parse Expr
  | 0, _ => Attempt.cutOff
  | n + 1, [] => unary n
  | n + 1, level :: tighter => do
    let left ← operators n tighter
    operatorsAfter n level tighter left

/-- What follows an operand on its level. -/
def operatorsAfter : Nat → Level → List Level → Expr → Parse Expr
  | 0, _, _, _ => Attempt.cutOff
  | n + 1, level, tighter, left => do
    match level.join? (← current).kind with
    | none => return left
    | some join =>
      let operator ← advance
      let right ← operators n tighter
      operatorsAfter n level tighter (join left right operator.line)

def unary : Nat → Parse Expr
  | 0 => Attempt.cutOff
  | n + 1 => do
    match UnaryOp.ofKind? (← current).kind with
    | none => call n
    | some op =>
      let operator ← advance
      let operand ← unary n
      return .unary op operand operator.line

def call : Nat → Parse Expr
  | 0 => Attempt.cutOff
  | n + 1 => do
    let callee ← primary n
    callsAfter n callee

/-- The calls that follow a callee. A property is a call with its name as the one argument. -/
def callsAfter : Nat → Expr → Parse Expr
  | 0, _ => Attempt.cutOff
  | n + 1, callee => do
    match (← current).kind with
    | .leftParen =>
      let opening ← advance
      let arguments ← arguments n
      callsAfter n (.call callee arguments opening.line)
    | .dot =>
      let dot ← advance
      let name ← expectIdentifier "property name after '.'"
      callsAfter n (.call callee [.literal (.string name.lexeme) name.line] dot.line)
    | _ => return callee

/-- Arguments and the closing parenthesis. -/
def arguments : Nat → Parse (List Expr)
  | 0 => Attempt.cutOff
  | n + 1 => do
    let arguments ← if ← sees .rightParen then pure [] else argumentList n
    let _ ← expect .rightParen "')' after arguments"
    return arguments

/-- One argument or more. -/
def argumentList : Nat → Parse (List Expr)
  | 0 => Attempt.cutOff
  | n + 1 => do
    let first ← expression n
    if ← eat .comma then
      let more ← argumentList n
      return first :: more
    else
      return [first]

def primary : Nat → Parse Expr
  | 0 => Attempt.cutOff
  | n + 1 => do
    let t ← current
    match t.kind, t.literal with
    | .kwTrue, _ => leaf (.literal (.boolean true) t.line)
    | .kwFalse, _ => leaf (.literal (.boolean false) t.line)
    | .kwNil, _ => leaf (.literal .nil t.line)
    | .number, some value => leaf (.literal value t.line)
    | .string, some value => leaf (.literal value t.line)
    | .identifier, _ => leaf (.var t.lexeme t.line)
    | .leftParen, _ =>
      let _ ← advance
      let inner ← expression n
      let _ ← expect .rightParen "')' after expression"
      return inner
    | _, _ => Attempt.fail ⟨.expectedExpression, t⟩

end


-- ---------------------------------------------------------------------------
-- Statements
-- ---------------------------------------------------------------------------

def expressionStatement (n : Nat) : Parse Stmt := do
  let value ← expression n
  let _ ← expect .semicolon "';' after expression"
  return .ofExpr value

def printStatement (n : Nat) : Parse Stmt := do
  let start ← advance
  let value ← expression n
  let _ ← expect .semicolon "';' after value"
  return .print value start.line

def returnStatement (n : Nat) : Parse Stmt := do
  let start ← advance
  let value ←
    if ← sees .semicolon then
      pure (.literal .nil start.line)
    else
      expression n
  let _ ← expect .semicolon "';' after return value"
  return .ret value start.line

/-- The equals sign before the initial value may be left out, and so may the value. -/
def initialValue (n : Nat) (name : Name) : Parse Expr := do
  if ← eat .equal then
    expression n
  else if ← sees .semicolon then
    return .literal .nil name.line
  else
    expression n

def varDeclaration (n : Nat) : Parse Stmt := do
  let start ← advance
  let name ← declaredName "variable name"
  let initial ← initialValue n name
  let _ ← expect .semicolon "';' after variable declaration"
  return .var name initial start.line

/-- The first clause of a for loop, with its semicolon. -/
def forInitial (n : Nat) : Parse (Option Stmt) := do
  match (← current).kind with
  | .semicolon =>
    let _ ← advance
    return none
  | .kwVar => return some (← varDeclaration n)
  | _ => return some (← expressionStatement n)

/-- The second clause of a for loop. Without it the loop does not end by itself. -/
def forCondition (n : Nat) : Parse Expr := do
  let t ← current
  let condition ←
    if t.kind = .semicolon then
      pure (.literal (.boolean true) t.line)
    else
      expression n
  let _ ← expect .semicolon "';' after loop condition"
  return condition

/-- The third clause of a for loop, with the closing parenthesis. -/
def forUpdate (n : Nat) : Parse (Option Expr) := do
  let update ← if ← sees .rightParen then pure none else some <$> expression n
  let _ ← expect .rightParen "')' after for clauses"
  return update

/-- The parameters of a function, one or more. -/
def parameterList : Nat → Parse (List Name)
  | 0 => Attempt.cutOff
  | n + 1 => do
    let first ← declaredName "parameter name"
    if ← eat .comma then
      let more ← parameterList n
      return first :: more
    else
      return [first]

def parameters (n : Nat) : Parse (List Name) := do
  let names ← if ← sees .rightParen then pure [] else parameterList n
  let _ ← expect .rightParen "')' after parameters"
  return names

mutual

def declaration : Nat → Parse Stmt
  | 0 => Attempt.cutOff
  | n + 1 => do
    match (← current).kind with
    | .kwFun => function n
    | .kwVar => varDeclaration n
    | _ => statement n

def statement : Nat → Parse Stmt
  | 0 => Attempt.cutOff
  | n + 1 => do
    match (← current).kind with
    | .kwFor => forStatement n
    | .kwIf => ifStatement n
    | .kwPrint => printStatement n
    | .kwReturn => returnStatement n
    | .kwWhile => whileStatement n
    | .leftBrace =>
      let start ← advance
      let body ← blockBody n
      return .block body start.line
    | _ => expressionStatement n

/-- Declarations and the closing brace. -/
def blockBody : Nat → Parse (List Stmt)
  | 0 => Attempt.cutOff
  | n + 1 => do
    let closed ← sees .rightBrace
    let ended ← atEnd
    if closed || ended then
      let _ ← expect .rightBrace "'\x7d' after block"
      return []
    else
      let first ← declaration n
      let more ← blockBody n
      return first :: more

def function : Nat → Parse Stmt
  | 0 => Attempt.cutOff
  | n + 1 => do
    let start ← advance
    let name ← declaredName "function name"
    let _ ← expect .leftParen "'(' after function name"
    let parameters ← parameters n
    let _ ← expect .leftBrace "'\x7b' before function body"
    let body ← blockBody n
    return .func name parameters body start.line

def forStatement : Nat → Parse Stmt
  | 0 => Attempt.cutOff
  | n + 1 => do
    let start ← advance
    let _ ← expect .leftParen "'(' after 'for'"
    let initial ← forInitial n
    let condition ← forCondition n
    let update ← forUpdate n
    let body ← statement n
    return .forLoop initial condition update body start.line

def ifStatement : Nat → Parse Stmt
  | 0 => Attempt.cutOff
  | n + 1 => do
    let start ← advance
    let _ ← expect .leftParen "'(' after 'if'"
    let condition ← expression n
    let _ ← expect .rightParen "')' after if condition"
    let yes ← statement n
    if ← eat .kwElse then
      let no ← statement n
      return .branch condition yes (some no) start.line
    else
      return .branch condition yes none start.line

def whileStatement : Nat → Parse Stmt
  | 0 => Attempt.cutOff
  | n + 1 => do
    let start ← advance
    let _ ← expect .leftParen "'(' after 'while'"
    let condition ← expression n
    let _ ← expect .rightParen "')' after while condition"
    let body ← statement n
    return .loop condition body start.line

end

end Parse

end Lox
