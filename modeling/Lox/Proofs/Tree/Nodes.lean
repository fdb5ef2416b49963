-- SUMMARY: The expression nodes of code.
import Lox.Proofs.Tree.Names

/-!
## Nodes

The expression nodes of a piece of code are all the expressions in it, the bodies of functions
included. What code assigns to can be read off its nodes (`Expr.assigned_eq`).
-/

namespace Lox

mutual

def Expr.nodes : Expr → List Expr
  | .literal value line => [.literal value line]
  | .var name line => [.var name line]
  | .assign name value line => .assign name value line :: value.nodes
  | .binary op left right line => .binary op left right line :: (left.nodes ++ right.nodes)
  | .logical op left right line => .logical op left right line :: (left.nodes ++ right.nodes)
  | .unary op operand line => .unary op operand line :: operand.nodes
  | .group inner line => .group inner line :: inner.nodes
  | .call callee arguments line =>
    .call callee arguments line :: (callee.nodes ++ Expr.nodesAll arguments)

def Expr.nodesAll : List Expr → List Expr
  | [] => []
  | e :: es => e.nodes ++ Expr.nodesAll es

end

mutual

def Stmt.nodes : Stmt → List Expr
  | .expr value _ => value.nodes
  | .print value _ => value.nodes
  | .var _ initial _ => initial.nodes
  | .block body _ => Stmt.nodesAll body
  | .branch condition yes no _ => condition.nodes ++ (yes.nodes ++ Stmt.nodesElse no)
  | .loop condition body _ => condition.nodes ++ body.nodes
  | .func _ _ body _ => Stmt.nodesAll body
  | .ret value _ => value.nodes

def Stmt.nodesAll : List Stmt → List Expr
  | [] => []
  | s :: ss => s.nodes ++ Stmt.nodesAll ss

def Stmt.nodesElse : Option Stmt → List Expr
  | none => []
  | some s => s.nodes

end

/-- An expression is a node of itself. -/
theorem Expr.mem_nodes (e : Expr) : e ∈ e.nodes := by
  cases e with
  | literal | var => exact List.mem_singleton.2 rfl
  | assign | binary | logical | unary | group | call => exact List.mem_cons_self

theorem Stmt.nodes_forLoop (initial : Option Stmt) (condition : Expr) (update : Option Expr)
    (body : Stmt) (line : Nat) :
    (Stmt.forLoop initial condition update body line).nodes =
      Stmt.nodesElse initial ++
        (condition.nodes ++ (body.nodes ++ Expr.nodesAll update.toList)) := by
  cases initial <;> cases update <;>
    simp [forLoop, ofExpr, nodes, nodesAll, nodesElse, Expr.nodesAll]

/-- The name that a node assigns to. -/
def Expr.target? : Expr → Option String
  | .assign name _ _ => some name
  | _ => none

-- ---------------------------------------------------------------------------
-- Assigned names
-- ---------------------------------------------------------------------------

mutual

theorem Expr.assigned_eq (e : Expr) : e.assigned = e.nodes.filterMap Expr.target? :=
  match e with
  | .literal .. | .var .. => rfl
  | .assign name value line => by
    rw [nodes, List.filterMap_cons_some (f := Expr.target?) rfl, assigned, value.assigned_eq]
  | .binary op left right line | .logical op left right line => by
    rw [nodes, List.filterMap_cons_none rfl, List.filterMap_append, assigned, left.assigned_eq,
      right.assigned_eq]
  | .unary op operand line | .group operand line => by
    rw [nodes, List.filterMap_cons_none rfl, assigned, operand.assigned_eq]
  | .call callee arguments line => by
    rw [nodes, List.filterMap_cons_none rfl, List.filterMap_append, assigned, callee.assigned_eq,
      Expr.assignedAll_eq arguments]

theorem Expr.assignedAll_eq (es : List Expr) :
    Expr.assignedAll es = (Expr.nodesAll es).filterMap Expr.target? :=
  match es with
  | [] => rfl
  | e :: es => by
    rw [nodesAll, List.filterMap_append, assignedAll, e.assigned_eq, Expr.assignedAll_eq es]

end

mutual

theorem Stmt.assigned_eq (s : Stmt) : s.assigned = s.nodes.filterMap Expr.target? :=
  match s with
  | .expr value _ | .print value _ | .var _ value _ | .ret value _ => value.assigned_eq
  | .block body _ | .func _ _ body _ => Stmt.assignedAll_eq body
  | .branch condition yes no _ => by
    rw [nodes, List.filterMap_append, List.filterMap_append, assigned, condition.assigned_eq,
      yes.assigned_eq, Stmt.assignedElse_eq no]
  | .loop condition body _ => by
    rw [nodes, List.filterMap_append, assigned, condition.assigned_eq, body.assigned_eq]

theorem Stmt.assignedAll_eq (ss : List Stmt) :
    Stmt.assignedAll ss = (Stmt.nodesAll ss).filterMap Expr.target? :=
  match ss with
  | [] => rfl
  | s :: ss => by
    rw [nodesAll, List.filterMap_append, assignedAll, s.assigned_eq, Stmt.assignedAll_eq ss]

theorem Stmt.assignedElse_eq (no : Option Stmt) :
    Stmt.assignedElse no = (Stmt.nodesElse no).filterMap Expr.target? :=
  match no with
  | none => rfl
  | some s => s.assigned_eq

end

section

variable {x : String}

theorem Expr.not_mem_assigned_iff {e : Expr} :
    x ∉ e.assigned ↔ ∀ e' ∈ e.nodes, e'.target? ≠ some x := by
  simp [e.assigned_eq]

theorem Stmt.not_mem_assigned_iff {s : Stmt} :
    x ∉ s.assigned ↔ ∀ e ∈ s.nodes, e.target? ≠ some x := by
  simp [s.assigned_eq]

theorem Stmt.not_mem_assignedAll_iff {ss : List Stmt} :
    x ∉ Stmt.assignedAll ss ↔ ∀ e ∈ Stmt.nodesAll ss, e.target? ≠ some x := by
  simp [Stmt.assignedAll_eq ss]

end

end Lox
