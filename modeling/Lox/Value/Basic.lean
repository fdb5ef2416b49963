-- SUMMARY: The values of a run: types, texts, truth and equality.
import Lox.Tree.Basic

/-!
## Values

A function value is a declaration together with the scope that was current when it was declared.
Functions and natives have an identity: each declaration that runs makes a new one.
-/

namespace Lox

/-- Scopes are numbered in the order in which they are made. -/
abbrev ScopeId : Type := Nat

structure Function where
  identity : Nat
  name : String
  parameters : List String
  body : List Stmt
  /-- The scope that the function was declared in. -/
  scope : ScopeId

/-- A function that is built in. What it does is looked up by its name. -/
structure Native where
  identity : Nat
  name : String
  arity : Nat
  deriving DecidableEq, Repr

inductive Value where
  | number (x : Float)
  | string (s : String)
  | boolean (b : Bool)
  | nil
  | function (f : Function)
  | native (f : Native)

def Function.arity (f : Function) : Nat :=
  f.parameters.length

inductive ValueType where
  | number | string | boolean | nil | function | native
  deriving DecidableEq, Repr

def ValueType.name : ValueType → String
  | number => "number"
  | string => "string"
  | boolean => "bool"
  | nil => "nil"
  | function => "function"
  | native => "native function"

namespace Value

def type : Value → ValueType
  | number _ => .number
  | string _ => .string
  | boolean _ => .boolean
  | nil => .nil
  | function _ => .function
  | native _ => .native

def ofLiteral : Literal → Value
  | .number x => number x
  | .string s => string s
  | .boolean b => boolean b
  | .nil => nil

/-- A value as it is printed. -/
def text : Value → String
  | number x => Number.text x
  | string s => s
  | boolean b => if b then "true" else "false"
  | nil => "nil"
  | function f => "<fn " ++ f.name ++ ">"
  | native _ => "<native fn>"

def isNil : Value → Bool
  | nil => true
  | _ => false

/-- Only nil and false do not hold as conditions. -/
def isTrue : Value → Bool
  | nil => false
  | boolean b => b
  | _ => true

/-- Equality of the language. Values of two types are never equal, numbers are compared as numbers,
functions and natives by identity. -/
def equal : Value → Value → Bool
  | number x, number y => x == y
  | string s, string t => s == t
  | boolean a, boolean b => a == b
  | nil, nil => true
  | function f, function g => f.identity == g.identity
  | native f, native g => f.identity == g.identity
  | _, _ => false

end Value

end Lox
