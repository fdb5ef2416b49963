-- SUMMARY: Runs do not depend on line numbers, nor on what was printed before them.
import Lox.Proofs.Recast.Steps
import Lox.Proofs.Unlined.Basic

/-!
## Runs without lines

A run of code without lines, on a machine without lines, behind any output, is the run of the code
itself without lines. This holds of runs that end and of runs that are cut off, so neither the
outcome nor whether there is one depends on lines (`runsUnlined`). Built-in functions have to play
their part: what they make of values may not depend on the bodies of functions.
-/

namespace Lox

open Attempt

/-- Without lines. -/
def Recast.unlined : Recast where
  body := Stmt.unlinedAll
  line _ := 0

/-- A built-in function that does not look at the line numbers in its arguments. -/
def Builtin.Blind (b : Builtin) : Prop :=
  ∀ vs moment, b.run (vs.map Value.unlined) moment = (b.run vs moment).map Value.unlined

theorem Builtin.blind_clockOf (readings : Readings) : (clockOf readings).Blind :=
  Recast.unlined.suits_clockOf readings

/-- Machines without lines, behind an output. -/
def Machine.view (earlier : String) : View RuntimeError Machine where
  Holds m := ∀ b ∈ m.builtins, b.Blind
  state m := m.behind earlier
  error e := e.unlined

/-- `y` does without lines what `x` does. -/
def Run.Unlines {α β : Type} (earlier : String) (see : α → β) (x : Run α) (y : Run β) : Prop :=
  (Machine.view earlier).Matches see x y

variable {α β : Type} {earlier : String} {see : α → β} {x : Run α} {y : Run β}

/-- To leave out the lines is to recast the machine. -/
theorem Run.unlines_iff_recasts :
    Run.Unlines earlier see x y ↔ Run.Recasts .unlined earlier see x y :=
  Iff.rfl

-- ---------------------------------------------------------------------------
-- Runs
-- ---------------------------------------------------------------------------

/-- Runs with `n` units of fuel do not depend on lines. -/
structure RunsUnlined (earlier : String) (n : Nat) : Prop where
  eval : ∀ e : Expr, Run.Unlines earlier Value.unlined (eval n e) (eval n e.unlined)
  evalAll : ∀ es, Run.Unlines earlier (List.map Value.unlined) (evalAll n es)
    (evalAll n (Expr.unlinedAll es))
  call : ∀ f vs line, Run.Unlines earlier Value.unlined (call n f vs line)
    (call n f.unlined (vs.map Value.unlined) 0)
  exec : ∀ s : Stmt, Run.Unlines earlier Completion.unlined (exec n s) (exec n s.unlined)
  execAll : ∀ ss, Run.Unlines earlier Completion.unlined (execAll n ss)
    (execAll n (Stmt.unlinedAll ss))

namespace RunsUnlined

variable {n : Nat} (ih : RunsUnlined earlier n)

include ih

theorem eval_succ (e : Expr) :
    Run.Unlines earlier Value.unlined (Lox.eval (n + 1) e) (Lox.eval (n + 1) e.unlined) := by
  rw [Run.unlines_iff_recasts]
  cases e with
  | literal l => exact .pure (Recast.unlined.value_ofLiteral l).symm
  | var name line => exact .lookup name
  | assign name value line =>
    exact .bind (ih.eval value) fun v => .bind (.assign name v) fun _ => .pure rfl
  | binary op left right line =>
    refine .bind (ih.eval left) fun v => .bind (ih.eval right) fun w => ?_
    have hvalue : op.apply v.unlined w.unlined = op.apply v w := Recast.unlined.binary_apply op v w
    rw [hvalue]
    exact .operator (op.plain_apply v w)
  | logical op left right line =>
    refine .bind (ih.eval left) fun v => ?_
    have hnil : v.unlined.isNil = v.isNil := Recast.unlined.isNil_value v
    rw [hnil]
    split
    · exact ih.eval right
    · exact .pure rfl
    · exact .pure rfl
    · exact ih.eval right
  | unary op operand line =>
    refine .bind (ih.eval operand) fun v => ?_
    have hvalue : op.apply v.unlined = op.apply v := Recast.unlined.unary_apply op v
    rw [hvalue]
    exact .operator (op.plain_apply v)
  | group inner => exact ih.eval inner
  | call callee arguments line =>
    exact .bind (ih.eval callee) fun f => .bind (ih.evalAll arguments) fun vs => ih.call f vs line

theorem evalAll_succ (es : List Expr) :
    Run.Unlines earlier (List.map Value.unlined) (Lox.evalAll (n + 1) es)
      (Lox.evalAll (n + 1) (Expr.unlinedAll es)) := by
  rw [Run.unlines_iff_recasts]
  cases es with
  | nil => exact .pure rfl
  | cons e es => exact .bind (ih.eval e) fun v => .bind (ih.evalAll es) fun vs => .pure rfl

theorem call_succ (f : Value) (vs : List Value) (line : Nat) :
    Run.Unlines earlier Value.unlined (Lox.call (n + 1) f vs line)
      (Lox.call (n + 1) f.unlined (vs.map Value.unlined) 0) := by
  rw [Run.unlines_iff_recasts]
  cases f with
  | function f =>
    have hbody : Run.Recasts .unlined earlier Value.unlined
        (do return (← Lox.execAll n f.body).value)
        (do return (← Lox.execAll n f.unlined.body).value) := by
      refine .bind (ih.execAll f.body) fun c => ?_
      exact .pure (Recast.unlined.value_completion c)
    have hbs : f.parameters.zip (vs.map Value.unlined) =
        Recast.unlined.bindings (f.parameters.zip vs) := List.zip_map_right
    show Run.Recasts .unlined earlier Value.unlined _ (do
      Run.checkCount f.name f.arity (vs.map Value.unlined).length 0
      Run.checkDepth 0
      Run.inFrame f.scope <| Run.inScope (f.parameters.zip (vs.map Value.unlined)) do
        return (← Lox.execAll n f.unlined.body).value)
    rw [hbs, List.length_map]
    exact .bind (.checkCount f.name f.arity vs.length) fun _ => .bind .checkDepth fun _ =>
      .inFrame f.scope (.inScope (f.parameters.zip vs) hbody)
  | native f =>
    show Run.Recasts .unlined earlier Value.unlined _ (do
      Run.checkCount f.name f.arity (vs.map Value.unlined).length 0
      Run.callBuiltin f (vs.map Value.unlined) 0)
    rw [List.length_map]
    exact .bind (.checkCount f.name f.arity vs.length) fun _ => .callBuiltin f vs
  | number | string | boolean | nil => exact .fail _

theorem exec_succ (s : Stmt) :
    Run.Unlines earlier Completion.unlined (Lox.exec (n + 1) s) (Lox.exec (n + 1) s.unlined) := by
  rw [Run.unlines_iff_recasts]
  cases s with
  | expr e => exact .bind (ih.eval e) fun _ => .pure rfl
  | print e =>
    refine .bind (ih.eval e) fun v => ?_
    have htext : v.unlined.text = v.text := Recast.unlined.text_value v
    rw [htext]
    exact .bind (.print v.text) fun _ => .pure rfl
  | var name e =>
    exact .bind (ih.eval e) fun v => .bind (.define name.text v) fun _ => .pure rfl
  | block body => exact .inScope [] (ih.execAll body)
  | branch condition yes no line =>
    refine .bind (ih.eval condition) fun v => ?_
    have htrue : v.unlined.isTrue = v.isTrue := Recast.unlined.isTrue_value v
    rw [htrue]
    split
    · exact ih.exec yes
    · cases no with
      | none => exact .pure rfl
      | some no => exact ih.exec no
  | loop condition body line =>
    refine .bind (ih.eval condition) fun v => ?_
    have htrue : v.unlined.isTrue = v.isTrue := Recast.unlined.isTrue_value v
    rw [htrue]
    split
    · refine .bind (ih.exec body) fun c => ?_
      cases c with
      | normal => exact ih.exec (.loop condition body line)
      | returned v => exact .pure rfl
    · exact .pure rfl
  | func name parameters body line =>
    show Run.Recasts .unlined earlier Completion.unlined _ (do
      Run.declare name.text ((parameters.map Name.unlined).map Name.text) (Stmt.unlinedAll body)
      return .normal)
    rw [Name.map_text_unlined]
    exact .bind (.declare name.text _ body) fun _ => .pure rfl
  | ret e => exact .bind (ih.eval e) fun v => .pure rfl

theorem execAll_succ (ss : List Stmt) :
    Run.Unlines earlier Completion.unlined (Lox.execAll (n + 1) ss)
      (Lox.execAll (n + 1) (Stmt.unlinedAll ss)) := by
  rw [Run.unlines_iff_recasts]
  cases ss with
  | nil => exact .pure rfl
  | cons s ss =>
    refine .bind (ih.exec s) fun c => ?_
    cases c with
    | normal => exact ih.execAll ss
    | returned v => exact .pure rfl

end RunsUnlined

theorem runsUnlined (earlier : String) (n : Nat) : RunsUnlined earlier n := by
  induction n with
  | zero => constructor <;> intros <;> exact View.Matches.cutOff
  | succ n ih =>
    exact ⟨ih.eval_succ, ih.evalAll_succ, ih.call_succ, ih.exec_succ, ih.execAll_succ⟩

end Lox
