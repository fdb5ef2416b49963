-- SUMMARY: Trees as text: parenthesised forms with the operator in front.
import Lox.Text.Quoted
import Lox.Tree.Basic

/-!
## Trees as text

A node is written as its operator and its parts between parentheses, a program as one statement
per line. String literals are quoted, so a text has no line breaks but those between statements.
-/

namespace Lox

def Literal.written : Literal → String
  | .string s => quoted s
  | l => l.text

mutual

def Expr.text : Expr → String
  | .literal value _ => value.written
  | .var name _ => name
  | .assign name value _ => "(= " ++ name ++ " " ++ value.text ++ ")"
  | .binary op left right _ => "(" ++ op.symbol ++ " " ++ left.text ++ " " ++ right.text ++ ")"
  | .logical op left right _ => "(" ++ op.symbol ++ " " ++ left.text ++ " " ++ right.text ++ ")"
  | .unary op operand _ => "(" ++ op.symbol ++ " " ++ operand.text ++ ")"
  | .group inner _ => "(group " ++ inner.text ++ ")"
  | .call callee arguments _ => "(call " ++ callee.text ++ Expr.listText arguments ++ ")"

/-- The texts of expressions, with a space before each. -/
def Expr.listText : List Expr → String
  | [] => ""
  | e :: es => " " ++ e.text ++ Expr.listText es

end

def parametersText (names : List Name) : String :=
  "(" ++ " ".intercalate (names.map Name.text) ++ ")"

mutual

def Stmt.text : Stmt → String
  | .expr value _ => "(; " ++ value.text ++ ")"
  | .print value _ => "(print " ++ value.text ++ ")"
  | .var name initial _ => "(var " ++ name.text ++ " " ++ initial.text ++ ")"
  | .block body _ => "(block" ++ Stmt.listText body ++ ")"
  | .branch condition yes no _ =>
    "(if " ++ condition.text ++ " " ++ yes.text ++ Stmt.elseText no ++ ")"
  | .loop condition body _ => "(while " ++ condition.text ++ " " ++ body.text ++ ")"
  | .func name parameters body _ =>
    "(fun " ++ name.text ++ " " ++ parametersText parameters ++ Stmt.listText body ++ ")"
  | .ret value _ => "(return " ++ value.text ++ ")"

/-- The texts of statements, with a space before each. -/
def Stmt.listText : List Stmt → String
  | [] => ""
  | s :: ss => " " ++ s.text ++ Stmt.listText ss

def Stmt.elseText : Option Stmt → String
  | none => ""
  | some s => " " ++ s.text

end

/-- A program as text. -/
def programText (program : List Stmt) : String :=
  String.join (program.map fun s => s.text ++ "\n")

end Lox
