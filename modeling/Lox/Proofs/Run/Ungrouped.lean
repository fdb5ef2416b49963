-- SUMMARY: Parentheses are of no account to what a program does.
import Lox.Proofs.Recast.Steps
import Lox.Proofs.Run.Fuel

/-!
## Without groups

A group has the value of what is in it, and costs a unit of fuel. Without its groups a program needs
less fuel, and where its functions are values they have no groups either. Apart from that it does
the same (`ungrouping_keeps_runs`): where one of the two ends with some fuel, the other ends with
enough (`convergesUngrouped`).
-/

namespace Lox

open Attempt

-- ---------------------------------------------------------------------------
-- Trees
-- ---------------------------------------------------------------------------

mutual

def Expr.ungrouped : Expr → Expr
  | .literal value line => .literal value line
  | .var name line => .var name line
  | .assign name value line => .assign name value.ungrouped line
  | .binary op left right line => .binary op left.ungrouped right.ungrouped line
  | .logical op left right line => .logical op left.ungrouped right.ungrouped line
  | .unary op operand line => .unary op operand.ungrouped line
  | .group inner _ => inner.ungrouped
  | .call callee arguments line => .call callee.ungrouped (Expr.ungroupedAll arguments) line

def Expr.ungroupedAll : List Expr → List Expr
  | [] => []
  | e :: es => e.ungrouped :: Expr.ungroupedAll es

end

mutual

def Stmt.ungrouped : Stmt → Stmt
  | .expr value line => .expr value.ungrouped line
  | .print value line => .print value.ungrouped line
  | .var name initial line => .var name initial.ungrouped line
  | .block body line => .block (Stmt.ungroupedAll body) line
  | .branch condition yes no line =>
    .branch condition.ungrouped yes.ungrouped (Stmt.ungroupedElse no) line
  | .loop condition body line => .loop condition.ungrouped body.ungrouped line
  | .func name parameters body line => .func name parameters (Stmt.ungroupedAll body) line
  | .ret value line => .ret value.ungrouped line

def Stmt.ungroupedAll : List Stmt → List Stmt
  | [] => []
  | s :: ss => s.ungrouped :: Stmt.ungroupedAll ss

def Stmt.ungroupedElse : Option Stmt → Option Stmt
  | none => none
  | some s => some s.ungrouped

end

/-- Without groups in the bodies of functions. -/
def Recast.ungrouped : Recast where
  body := Stmt.ungroupedAll
  line := id

/-- Where the first computation ends, the second one ends too on a machine without groups, and the
other way around. -/
def Run.Converges {α β : Type} (see : α → β) (n : Nat) (x : Nat → Run α) (y : Nat → Run β) : Prop :=
  (Recast.ungrouped.view "").Converges see n x y

namespace Run.Converges

variable {α β γ δ : Type} {see : α → β} {n : Nat} {x : Nat → Run α} {y : Nat → Run β}

theorem of_recasts {x : Run α} {y : Run β} (h : Recasts .ungrouped "" see x y) :
    Converges see n (fun _ => x) fun _ => y :=
  View.Converges.of_matches h

theorem pure {a : α} {b : β} (h : b = see a) :
    Converges see n (fun _ => Pure.pure a) fun _ => Pure.pure b :=
  of_recasts (.pure h)

theorem bind {see' : γ → δ} {f : Nat → α → Run γ} {g : Nat → β → Run δ}
    (hx : Converges see n x y)
    (hf : ∀ a, Converges see' n (fun n => f n a) fun n => g n (see a)) :
    Converges see' n (fun n => x n >>= f n) fun n => y n >>= g n :=
  View.Converges.bind hx hf

/-- A step of the machine on both sides. -/
theorem step_bind {see' : γ → δ} {x : Run α} {y : Run β} {f : Nat → α → Run γ} {g : Nat → β → Run δ}
    (hx : Recasts .ungrouped "" see x y)
    (hf : ∀ a, Converges see' n (fun n => f n a) fun n => g n (see a)) :
    Converges see' n (fun n => x >>= f n) fun n => y >>= g n :=
  View.Converges.bind (of_recasts hx) hf

theorem ite {x' : Nat → Run α} {y' : Nat → Run β} (b : Bool) (h : Converges see n x y)
    (h' : Converges see n x' y') :
    Converges see n (fun n => if b then x n else x' n) fun n => if b then y n else y' n :=
  View.Converges.ite b h h'

theorem succ (h : Converges see n (fun n => x (n + 1)) fun n => y (n + 1)) :
    Converges see (n + 1) x y :=
  View.Converges.succ h

theorem inScope (bs : List (String × Value)) (h : Converges see n x y) :
    Converges see n (fun n => Run.inScope bs (x n))
      fun n => Run.inScope (Recast.ungrouped.bindings bs) (y n) := by
  simp only [Run.inScope_eq_within]
  exact View.Converges.within (Recast.ungrouped.frames_enter "" bs) h

theorem inFrame (i : ScopeId) (h : Converges see n x y) :
    Converges see n (fun n => Run.inFrame i (x n)) fun n => Run.inFrame i (y n) := by
  simp only [Run.inFrame_eq_within]
  exact View.Converges.within (Recast.ungrouped.frames_calling "" i) h

end Run.Converges

-- ---------------------------------------------------------------------------
-- Runs
-- ---------------------------------------------------------------------------

/-- Runs with `n` units of fuel, with and without groups, end alike. -/
structure ConvergesUngrouped (n : Nat) : Prop where
  eval : ∀ e : Expr, Run.Converges Recast.ungrouped.value n (fun n => eval n e)
    fun n => eval n e.ungrouped
  evalAll : ∀ es, Run.Converges (List.map Recast.ungrouped.value) n (fun n => evalAll n es)
    fun n => evalAll n (Expr.ungroupedAll es)
  call : ∀ f vs line, Run.Converges Recast.ungrouped.value n (fun n => call n f vs line)
    fun n => call n (Recast.ungrouped.value f) (vs.map Recast.ungrouped.value) line
  exec : ∀ s : Stmt, Run.Converges Recast.ungrouped.completion n (fun n => exec n s)
    fun n => exec n s.ungrouped
  execAll : ∀ ss, Run.Converges Recast.ungrouped.completion n (fun n => execAll n ss)
    fun n => execAll n (Stmt.ungroupedAll ss)

namespace ConvergesUngrouped

variable {n : Nat} (ih : ConvergesUngrouped n)

include ih

-- A group may stand in a group, so on the side without groups one unit has to do for all of them.
theorem eval_succ : ∀ e : Expr, Run.Converges Recast.ungrouped.value (n + 1)
    (fun n => Lox.eval n e) fun n => Lox.eval n e.ungrouped
  | .group inner line =>
    View.Converges.succ_left (fun _ => rfl) (ih.eval inner) (eval_succ inner)
  | .literal l line => .succ (.pure (Recast.ungrouped.value_ofLiteral l).symm)
  | .var name line => .succ (.of_recasts (.lookup name))
  | .assign name value line =>
    .succ (.bind (ih.eval value) fun v => .step_bind (.assign name v) fun _ => .pure rfl)
  | .binary op left right line => by
    refine .succ (.bind (ih.eval left) fun v => .bind (ih.eval right) fun w => ?_)
    rw [Recast.ungrouped.binary_apply op v w]
    exact .of_recasts (.operator (op.plain_apply v w))
  | .logical op left right line => by
    refine .succ (.bind (ih.eval left) fun v => ?_)
    rw [Recast.ungrouped.isNil_value]
    cases op with
    | and =>
      cases v.isNil with
      | true => exact .pure rfl
      | false => exact ih.eval right
    | or =>
      cases v.isNil with
      | true => exact ih.eval right
      | false => exact .pure rfl
  | .unary op operand line => by
    refine .succ (.bind (ih.eval operand) fun v => ?_)
    rw [Recast.ungrouped.unary_apply op v]
    exact .of_recasts (.operator (op.plain_apply v))
  | .call callee arguments line =>
    .succ (.bind (ih.eval callee) fun f => .bind (ih.evalAll arguments) fun vs => ih.call f vs line)

theorem evalAll_succ (es : List Expr) :
    Run.Converges (List.map Recast.ungrouped.value) (n + 1) (fun n => Lox.evalAll n es)
      fun n => Lox.evalAll n (Expr.ungroupedAll es) := by
  cases es with
  | nil => exact .succ (.pure rfl)
  | cons e es =>
    exact .succ (.bind (ih.eval e) fun v => .bind (ih.evalAll es) fun vs => .pure rfl)

theorem call_succ (f : Value) (vs : List Value) (line : Nat) :
    Run.Converges Recast.ungrouped.value (n + 1) (fun n => Lox.call n f vs line)
      fun n => Lox.call n (Recast.ungrouped.value f) (vs.map Recast.ungrouped.value) line := by
  apply Run.Converges.succ
  cases f with
  | function f =>
    have hbody : Run.Converges Recast.ungrouped.value n
        (fun n => do return (← Lox.execAll n f.body).value)
        (fun n => do return (← Lox.execAll n (Recast.ungrouped.function f).body).value) := by
      refine .bind (ih.execAll f.body) fun c => ?_
      exact .pure (Recast.ungrouped.value_completion c)
    have hbs : f.parameters.zip (vs.map Recast.ungrouped.value) =
        Recast.ungrouped.bindings (f.parameters.zip vs) := List.zip_map_right
    show Run.Converges Recast.ungrouped.value n _ (fun n => do
      Run.checkCount f.name f.arity (vs.map Recast.ungrouped.value).length line
      Run.checkDepth line
      Run.inFrame f.scope <| Run.inScope (f.parameters.zip (vs.map Recast.ungrouped.value)) do
        return (← Lox.execAll n (Recast.ungrouped.function f).body).value)
    rw [hbs, List.length_map]
    exact .step_bind (.checkCount f.name f.arity vs.length) fun _ => .step_bind .checkDepth fun _ =>
      .inFrame f.scope (.inScope (f.parameters.zip vs) hbody)
  | native f =>
    show Run.Converges Recast.ungrouped.value n _ (fun _ => do
      Run.checkCount f.name f.arity (vs.map Recast.ungrouped.value).length line
      Run.callBuiltin f (vs.map Recast.ungrouped.value) line)
    rw [List.length_map]
    exact .of_recasts (.bind (.checkCount f.name f.arity vs.length) fun _ => .callBuiltin f vs)
  | number | string | boolean | nil => exact .of_recasts (.fail _)

theorem exec_succ (s : Stmt) :
    Run.Converges Recast.ungrouped.completion (n + 1) (fun n => Lox.exec n s)
      fun n => Lox.exec n s.ungrouped := by
  apply Run.Converges.succ
  cases s with
  | expr e => exact .bind (ih.eval e) fun _ => .pure rfl
  | print e =>
    refine .bind (ih.eval e) fun v => ?_
    rw [Recast.ungrouped.text_value]
    exact .step_bind (.print v.text) fun _ => .pure rfl
  | var name e =>
    exact .bind (ih.eval e) fun v => .step_bind (.define name.text v) fun _ => .pure rfl
  | block body => exact .inScope [] (ih.execAll body)
  | branch condition yes no line =>
    refine .bind (ih.eval condition) fun v => ?_
    rw [Recast.ungrouped.isTrue_value]
    refine .ite v.isTrue (ih.exec yes) ?_
    cases no with
    | none => exact .pure rfl
    | some no => exact ih.exec no
  | loop condition body line =>
    refine .bind (ih.eval condition) fun v => ?_
    rw [Recast.ungrouped.isTrue_value]
    refine .ite v.isTrue (.bind (ih.exec body) fun c => ?_) (.pure rfl)
    cases c with
    | normal => exact ih.exec (.loop condition body line)
    | returned v => exact .pure rfl
  | func name parameters body line =>
    exact .step_bind (.declare name.text _ body) fun _ => .pure rfl
  | ret e => exact .bind (ih.eval e) fun v => .pure rfl

theorem execAll_succ (ss : List Stmt) :
    Run.Converges Recast.ungrouped.completion (n + 1) (fun n => Lox.execAll n ss)
      fun n => Lox.execAll n (Stmt.ungroupedAll ss) := by
  apply Run.Converges.succ
  cases ss with
  | nil => exact .pure rfl
  | cons s ss =>
    refine .bind (ih.exec s) fun c => ?_
    cases c with
    | normal => exact ih.execAll ss
    | returned v => exact .pure rfl

end ConvergesUngrouped

theorem convergesUngrouped (n : Nat) : ConvergesUngrouped n := by
  induction n with
  | zero => constructor <;> intros <;> exact View.Converges.zero rfl rfl
  | succ n ih =>
    exact ⟨ih.eval_succ, ih.evalAll_succ, ih.call_succ, ih.exec_succ, ih.execAll_succ⟩

theorem interpret_converges (n : Nat) (program : List Stmt) :
    Run.Converges id n (fun n => interpret n program)
      fun n => interpret n (Stmt.ungroupedAll program) :=
  .bind ((convergesUngrouped n).execAll program) fun _ => .pure rfl

theorem interpret_settles {n : Nat} {program : List Stmt} {m : Machine}
    {o : Except RuntimeError Unit × Machine} (h : interpret n program m = some o) :
    Settles (fun n => interpret n program) m o :=
  ⟨n, fun _ hk => Approximates.bind ((runsApproximate hk).execAll program) (fun _ => .refl _) m o h⟩

/-- Errors are the same with and without groups, on the same lines. -/
theorem Recast.ungrouped_result (r : Except RuntimeError Unit) (m : Machine) :
    (Recast.ungrouped.view "").result id (r, m) = (r, Recast.ungrouped.machine "" m) := by
  cases r with
  | ok => rfl
  | error e =>
    have herror : Recast.ungrouped.error e = e := congrArg (RuntimeError.mk e.fault) Option.map_id'
    exact congrArg (fun e => (Except.error e, Recast.ungrouped.machine "" m)) herror

/-- On a fresh machine a program ends neither with its groups nor without them, or it prints the
same both times and ends the same way, with the same error on the same line if it fails. -/
theorem ungrouping_keeps_runs (callLimit : Nat) (readings : Readings) (program : List Stmt) :
    (∀ n, interpret n program (.fresh callLimit readings) = none ∧
      interpret n (Stmt.ungroupedAll program) (.fresh callLimit readings) = none) ∨
    ∃ r m m', Settles (fun n => interpret n program) (.fresh callLimit readings) (r, m) ∧
      Settles (fun n => interpret n (Stmt.ungroupedAll program)) (.fresh callLimit readings)
        (r, m') ∧
      m'.output = m.output := by
  have hsuits : ∀ b ∈ (Machine.fresh callLimit readings).builtins, Recast.ungrouped.Suits b :=
    List.forall_mem_singleton.2 (Recast.ungrouped.suits_clockOf readings)
  have hfresh : (Recast.ungrouped.view "").state (.fresh callLimit readings) =
      .fresh callLimit readings :=
    Recast.ungrouped.machine_fresh callLimit readings
  by_cases hends : ∃ n o, interpret n program (.fresh callLimit readings) = some o
  · obtain ⟨n, ⟨r, m⟩, h⟩ := hends
    obtain ⟨-, hsettles⟩ := (interpret_converges n program).forth _ hsuits _ h
    rw [hfresh, Recast.ungrouped_result] at hsettles
    exact .inr ⟨r, m, _, interpret_settles h, hsettles, String.empty_append⟩
  · have hnever (n) : interpret n program (.fresh callLimit readings) = none :=
      Option.eq_none_iff_forall_ne_some.2 fun o h => hends ⟨n, o, h⟩
    refine .inl fun n => ⟨hnever n, Option.eq_none_iff_forall_ne_some.2 fun o' h => ?_⟩
    rw [← hfresh] at h
    obtain ⟨o, -, -, k, hsettles⟩ := (interpret_converges n program).back _ hsuits _ h
    exact hends ⟨k, o, hsettles k (Nat.le_refl k)⟩

end Lox
