-- SUMMARY: Environments: the scopes that are open, from the current one to the bottom one.
import Lox.Store

/-!
## Environments

An environment knows the scopes that are open. There is always one, the current scope, in which
declarations take effect; blocks and calls open another one and close it again. The global scope is
the bottom scope of a program, and is shared by the environments of its calls.
-/

namespace Lox

structure Environment where
  current : ScopeId
  /-- The scopes below the current one, the nearest first. -/
  enclosing : List ScopeId
  global : ScopeId
  deriving DecidableEq, Repr

namespace Environment

/-- A program starts in its global scope. -/
def atGlobal (global : ScopeId) : Environment where
  current := global
  enclosing := []
  global := global

/-- The open scopes, the current one first. -/
def scopes (env : Environment) : List ScopeId :=
  env.current :: env.enclosing

def depth (env : Environment) : Nat :=
  env.scopes.length

/-- Opens a scope. -/
def push (env : Environment) (i : ScopeId) : Environment :=
  { env with current := i, enclosing := env.current :: env.enclosing }

/-- Closes the current scope, unless it is the only one. -/
def pop (env : Environment) : Environment :=
  match env.enclosing with
  | [] => env
  | i :: rest => { env with current := i, enclosing := rest }

/-- The environment of a call: it starts at the scope that the function was declared in. -/
def enclosed (env : Environment) (scope : ScopeId) : Environment :=
  { current := scope, enclosing := [], global := env.global }

@[simp] theorem pop_push (env : Environment) (i : ScopeId) : (env.push i).pop = env := rfl

@[simp] theorem global_push (env : Environment) (i : ScopeId) : (env.push i).global = env.global :=
  rfl

@[simp] theorem depth_push (env : Environment) (i : ScopeId) :
    (env.push i).depth = env.depth + 1 := rfl

end Environment

end Lox
