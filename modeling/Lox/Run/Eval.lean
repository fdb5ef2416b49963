-- SUMMARY: Running trees: expressions, statements, calls and programs.
import Lox.Run.Machine
import Lox.Value.Operator

/-!
## Running trees

An expression has a value, a statement completes or returns. An error ends both, and carries the
line of the node that failed. The first argument is fuel: every node, every call and every turn of a
loop has one unit less. A run that ends with some fuel ends the same way with more.
-/

namespace Lox

/-- How a statement ends that does not fail. -/
inductive Completion where
  | normal
  | returned (v : Value)

/-- The value of a call whose body ended. -/
def Completion.value : Completion → Value
  | normal => .nil
  | returned v => v

mutual

def eval : Nat → Expr → Run Value
  | 0, _ => Attempt.cutOff
  | _ + 1, .literal l _ => pure (.ofLiteral l)
  | _ + 1, .var name line => Run.lookup name line
  | n + 1, .assign name e line => do
    let v ← eval n e
    Run.assign name v line
    return v
  | n + 1, .binary op left right line => do
    let v ← eval n left
    let w ← eval n right
    Run.located line (op.apply v w)
  | n + 1, .logical op left right _ => do
    let v ← eval n left
    match op, v.isNil with
    | .or, true => eval n right
    | .or, false => return v
    | .and, true => return .nil
    | .and, false => eval n right
  | n + 1, .unary op operand line => do
    let v ← eval n operand
    Run.located line (op.apply v)
  | n + 1, .group inner _ => eval n inner
  | n + 1, .call callee arguments line => do
    let f ← eval n callee
    let vs ← evalAll n arguments
    call n f vs line

/-- The values of expressions, from left to right. -/
def evalAll : Nat → List Expr → Run (List Value)
  | 0, _ => Attempt.cutOff
  | _ + 1, [] => pure []
  | n + 1, e :: es => do
    let v ← eval n e
    let vs ← evalAll n es
    return v :: vs

/-- The value of a call. Errors of the call itself are on its line, errors in the body of the
function keep their own. -/
def call : Nat → Value → List Value → Nat → Run Value
  | 0, _, _, _ => Attempt.cutOff
  | n + 1, .function f, arguments, line => do
    Run.checkCount f.name f.arity arguments.length line
    Run.checkDepth line
    Run.inFrame f.scope <| Run.inScope (f.parameters.zip arguments) do
      return (← execAll n f.body).value
  | _ + 1, .native f, arguments, line => do
    Run.checkCount f.name f.arity arguments.length line
    Run.callBuiltin f arguments line
  | _ + 1, v, _, line => Run.fail (.notCallable v.type.name) line

def exec : Nat → Stmt → Run Completion
  | 0, _ => Attempt.cutOff
  | n + 1, .expr e _ => do
    let _ ← eval n e
    return .normal
  | n + 1, .print e _ => do
    let v ← eval n e
    Run.print v.text
    return .normal
  | n + 1, .var name e _ => do
    let v ← eval n e
    Run.define name.text v
    return .normal
  | n + 1, .block body _ => Run.inScope [] (execAll n body)
  | n + 1, .branch condition yes no _ => do
    let v ← eval n condition
    if v.isTrue then
      exec n yes
    else
      match no with
      | some s => exec n s
      | none => return .normal
  | n + 1, .loop condition body line => do
    let v ← eval n condition
    if v.isTrue then
      match ← exec n body with
      | .normal => exec n (.loop condition body line)
      | .returned v => return .returned v
    else
      return .normal
  | _ + 1, .func name parameters body _ => do
    Run.declare name.text (parameters.map Name.text) body
    return .normal
  | n + 1, .ret e _ => do
    let v ← eval n e
    return .returned v

/-- Statements one after the other, up to the first that returns. -/
def execAll : Nat → List Stmt → Run Completion
  | 0, _ => Attempt.cutOff
  | _ + 1, [] => pure .normal
  | n + 1, s :: ss => do
    match ← exec n s with
    | .normal => execAll n ss
    | .returned v => return .returned v

end

/-- Runs a program. A return outside any function ends it quietly. -/
def interpret (fuel : Nat) (program : List Stmt) : Run Unit := do
  let _ ← execAll fuel program
  return ()

end Lox
