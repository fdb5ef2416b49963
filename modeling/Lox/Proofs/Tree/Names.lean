-- SUMMARY: The names that code assigns to and the names that it declares.
import Lox.Tree.Basic

/-!
## Names in code

A statement assigns to the names that stand before an equals sign anywhere in it, the bodies of
functions included. It declares the names that it adds to the scope it runs in: those in its blocks
and in the bodies of its functions belong to scopes of their own.
-/

namespace Lox

mutual

def Expr.assigned : Expr → List String
  | .literal _ _ => []
  | .var _ _ => []
  | .assign name value _ => name :: value.assigned
  | .binary _ left right _ => left.assigned ++ right.assigned
  | .logical _ left right _ => left.assigned ++ right.assigned
  | .unary _ operand _ => operand.assigned
  | .group inner _ => inner.assigned
  | .call callee arguments _ => callee.assigned ++ Expr.assignedAll arguments

def Expr.assignedAll : List Expr → List String
  | [] => []
  | e :: es => e.assigned ++ Expr.assignedAll es

end

mutual

def Stmt.assigned : Stmt → List String
  | .expr value _ => value.assigned
  | .print value _ => value.assigned
  | .var _ initial _ => initial.assigned
  | .block body _ => Stmt.assignedAll body
  | .branch condition yes no _ => condition.assigned ++ (yes.assigned ++ Stmt.assignedElse no)
  | .loop condition body _ => condition.assigned ++ body.assigned
  | .func _ _ body _ => Stmt.assignedAll body
  | .ret value _ => value.assigned

def Stmt.assignedAll : List Stmt → List String
  | [] => []
  | s :: ss => s.assigned ++ Stmt.assignedAll ss

def Stmt.assignedElse : Option Stmt → List String
  | none => []
  | some s => s.assigned

end

mutual

def Stmt.declared : Stmt → List String
  | .var name _ _ => [name.text]
  | .func name _ _ _ => [name.text]
  | .branch _ yes no _ => yes.declared ++ Stmt.declaredElse no
  | .loop _ body _ => body.declared
  | .expr _ _ | .print _ _ | .block _ _ | .ret _ _ => []

def Stmt.declaredElse : Option Stmt → List String
  | none => []
  | some s => s.declared

end

def Stmt.declaredAll (ss : List Stmt) : List String :=
  ss.flatMap Stmt.declared

end Lox
