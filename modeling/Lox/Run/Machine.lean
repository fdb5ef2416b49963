-- SUMMARY: The state of a run, and the steps that a run is made of.
import Lox.Attempt
import Lox.Environment
import Lox.Value.Error

/-!
## Machines

A machine holds all that a run can change: the store, the open scopes, the number of calls that it
is in, the moment, and what was printed. A run is an attempt on a machine. The world outside of it
is seen through built-in functions only, and may be another one at every call of them.
-/

namespace Lox

/-- What a built-in function replies at each moment. Moments are counted by the calls of built-in
functions. -/
def Reply : Type :=
  Nat → Except Fault Value

namespace Reply

def ok (v : Value) : Reply :=
  fun _ => .ok v

def error (fault : Fault) : Reply :=
  fun _ => .error fault

end Reply

/-- A built-in function. Its result depends on its arguments and on the moment only. -/
structure Builtin where
  name : String
  arity : Nat
  run : List Value → Reply

/-- What a clock shows at each moment, in seconds, or why it cannot be read. -/
abbrev Readings : Type :=
  Nat → Except String Float

/-- The readings of a clock that stands still. -/
def Readings.constant (now : Float) : Readings :=
  fun _ => .ok now

/-- `clock()` reads a clock. -/
def Builtin.clockOf (readings : Readings) : Builtin where
  name := "clock"
  arity := 0
  run := fun _ moment =>
    match readings moment with
    | .ok now => .ok (.number now)
    | .error reason => .error (.nativeFailure "clock" reason)

def Builtin.clock (now : Float) : Builtin :=
  .clockOf (.constant now)

structure Machine where
  store : Store
  env : Environment
  /-- The calls that have not returned. -/
  callDepth : Nat := 0
  /-- The most calls that may be open at a time. -/
  callLimit : Nat
  /-- The functions and natives made so far. -/
  callables : Nat := 0
  builtins : List Builtin
  /-- The calls of built-in functions so far. -/
  moment : Nat := 0
  output : String := ""

/-- The limit on open calls unless another is given. -/
def defaultCallLimit : Nat := 1024

namespace Machine

def define (m : Machine) (name : String) (v : Value) : Machine :=
  { m with store := m.store.define m.env.current name v }

def defineGlobal (m : Machine) (name : String) (v : Value) : Machine :=
  { m with store := m.store.define m.env.global name v }

def lookup (m : Machine) (name : String) : Option Value :=
  m.store.lookup m.env.current name

/-- A number that no function or native has yet. -/
def newIdentity (m : Machine) : Nat × Machine :=
  (m.callables, { m with callables := m.callables + 1 })

/-- Defines a built-in function as a global. -/
def defineBuiltin (m : Machine) (b : Builtin) : Machine :=
  let (identity, m) := m.newIdentity
  m.defineGlobal b.name (.native { identity, name := b.name, arity := b.arity })

/-- A machine before its first run. `builtins` are the functions that natives can stand for; the
first of them are defined as globals, `defined` of them. -/
def start (callLimit : Nat) (builtins : List Builtin) (defined : Nat) : Machine :=
  let (global, store) := Store.empty.allocate none
  let m : Machine := { store, env := .atGlobal global, callLimit, builtins }
  (builtins.take defined).foldl defineBuiltin m

/-- The machine at the next moment. -/
def tick (m : Machine) : Machine :=
  { m with moment := m.moment + 1 }

/-- Opens a scope with bindings. -/
def enter (m : Machine) (bindings : List (String × Value)) : Machine :=
  let (i, store) := m.store.allocate (some m.env.current)
  let store := bindings.foldl (fun σ (name, v) => σ.define i name v) store
  { m with store, env := m.env.push i }

/-- Closes the current scope. -/
def leave (m : Machine) : Machine :=
  { m with env := m.env.pop }

/-- What was printed, and the machine without it. -/
def flush (m : Machine) : String × Machine :=
  (m.output, { m with output := "" })

end Machine

abbrev Run (α : Type) : Type :=
  Attempt RuntimeError Machine α

namespace Run

def fail {α : Type} (fault : Fault) (line : Nat) : Run α :=
  Attempt.fail { fault, line := some line }

/-- The result of an operation at a node on the given line. -/
def located {α : Type} (line : Nat) (x : Except Fault α) : Run α :=
  match x with
  | .ok a => pure a
  | .error fault => fail fault line

def print (text : String) : Run Unit :=
  Attempt.modify fun m => { m with output := m.output ++ text ++ "\n" }

def define (name : String) (v : Value) : Run Unit :=
  Attempt.modify fun m => m.define name v

/-- Declares a function: the scope that is current now is the one it is closed over. -/
def declare (name : String) (parameters : List String) (body : List Stmt) : Run Unit :=
  Attempt.modify fun m =>
    let (identity, m) := m.newIdentity
    m.define name (.function { identity, name, parameters, body, scope := m.env.current })

def lookup (name : String) (line : Nat) : Run Value := do
  match ← Attempt.gets fun m => m.lookup name with
  | some v => return v
  | none => fail (.undefinedVariable name) line

def assign (name : String) (v : Value) (line : Nat) : Run Unit :=
  Attempt.tryStep fun m =>
    match m.store.holder? name m.env.current with
    | some i => (.ok (), { m with store := m.store.define i name v })
    | none => (.error { fault := .undefinedVariable name, line := some line }, m)

/-- Runs `body` in a new scope and closes the scope however `body` ends. -/
@[inline] def inScope {α : Type} (bindings : List (String × Value)) (body : Run α) : Run α :=
  fun m =>
    match body (m.enter bindings) with
    | none => none
    | some (r, m) => some (r, m.leave)

/-- Runs `body` as a call of a function that was declared in `scope`, and goes back to the caller's
environment however `body` ends. -/
@[inline] def inFrame {α : Type} (scope : ScopeId) (body : Run α) : Run α :=
  fun m =>
    let env := m.env
    let callDepth := m.callDepth
    match body { m with env := env.enclosed scope, callDepth := callDepth + 1 } with
    | none => none
    | some (r, m) => some (r, { m with env, callDepth })

/-- Checks that a function gets as many arguments as it has parameters. -/
def checkCount (name : String) (expected got line : Nat) : Run Unit :=
  if expected = got then pure () else fail (.argumentCount name expected got) line

/-- Checks that one more call may be open. -/
def checkDepth (line : Nat) : Run Unit := do
  let (depth, limit) ← Attempt.gets fun m => (m.callDepth, m.callLimit)
  if limit ≤ depth then fail (.recursionLimit limit) line else pure ()

/-- Calls a built-in function. -/
def callBuiltin (f : Native) (arguments : List Value) (line : Nat) : Run Value := do
  let builtin? ← Attempt.gets fun m => m.builtins.find? fun b => b.name == f.name
  match builtin? with
  | some b =>
    let moment ← Attempt.gets Machine.moment
    Attempt.modify Machine.tick
    located line (b.run arguments moment)
  | none => fail (.notCallable ValueType.native.name) line

end Run

end Lox
