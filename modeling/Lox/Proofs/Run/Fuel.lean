-- SUMMARY: Runs do not depend on their fuel, and a program in two parts runs part by part.
import Lox.Proofs.Attempt
import Lox.Proofs.Store.Operations
import Lox.Run.Eval

/-!
## Fuel

A run that ends with some fuel ends in the same way with more (`runsApproximate`). So two runs of
the same code on the same machine that both end have the same outcome, and the outcome of a program
in two parts is that of the second part where the first one has got to its end.
-/

namespace Lox

open Attempt

variable {α : Type} {n k : Nat} {m m₁ : Machine}

-- ---------------------------------------------------------------------------
-- More fuel
-- ---------------------------------------------------------------------------

theorem Run.inScope_approximates {x y : Run α} (bs : List (String × Value))
    (h : Approximates x y) : Approximates (Run.inScope bs x) (Run.inScope bs y) := by
  rw [Run.inScope_eq_within, Run.inScope_eq_within]
  exact h.within _ _

theorem Run.inFrame_approximates {x y : Run α} (i : ScopeId) (h : Approximates x y) :
    Approximates (Run.inFrame i x) (Run.inFrame i y) := by
  rw [Run.inFrame_eq_within, Run.inFrame_eq_within]
  exact h.within _ _

/-- `k` units of fuel do what `n` units do. -/
structure RunsApproximate (n k : Nat) : Prop where
  eval : ∀ e : Expr, Approximates (eval n e) (eval k e)
  evalAll : ∀ es, Approximates (evalAll n es) (evalAll k es)
  call : ∀ f vs line, Approximates (call n f vs line) (call k f vs line)
  exec : ∀ s : Stmt, Approximates (exec n s) (exec k s)
  execAll : ∀ ss, Approximates (execAll n ss) (execAll k ss)

namespace RunsApproximate

variable (ih : RunsApproximate n k)

include ih

theorem eval_succ (e : Expr) : Approximates (Lox.eval (n + 1) e) (Lox.eval (k + 1) e) := by
  cases e with
  | literal | var => exact .refl _
  | assign name value => exact .bind (ih.eval value) fun _ => .refl _
  | binary op left right =>
    exact .bind (ih.eval left) fun _ => .bind (ih.eval right) fun _ => .refl _
  | logical op left right =>
    refine .bind (ih.eval left) fun v => ?_
    split
    · exact ih.eval right
    · exact .refl _
    · exact .refl _
    · exact ih.eval right
  | unary op operand => exact .bind (ih.eval operand) fun _ => .refl _
  | group inner => exact ih.eval inner
  | call callee arguments =>
    exact .bind (ih.eval callee) fun f => .bind (ih.evalAll arguments) fun vs => ih.call f vs _

theorem evalAll_succ (es : List Expr) :
    Approximates (Lox.evalAll (n + 1) es) (Lox.evalAll (k + 1) es) := by
  cases es with
  | nil => exact .refl _
  | cons e es => exact .bind (ih.eval e) fun _ => .bind (ih.evalAll es) fun _ => .refl _

theorem call_succ (f : Value) (vs : List Value) (line : Nat) :
    Approximates (Lox.call (n + 1) f vs line) (Lox.call (k + 1) f vs line) := by
  cases f with
  | function f =>
    have hbody := Approximates.bind (ih.execAll f.body) fun c => .refl (pure c.value)
    exact .bind (.refl _) fun _ => .bind (.refl _) fun _ =>
      Run.inFrame_approximates f.scope (Run.inScope_approximates _ hbody)
  | native | number | string | boolean | nil => exact .refl _

theorem exec_succ (s : Stmt) : Approximates (Lox.exec (n + 1) s) (Lox.exec (k + 1) s) := by
  cases s with
  | expr e | print e | var name e | ret e => exact .bind (ih.eval e) fun _ => .refl _
  | block body => exact Run.inScope_approximates [] (ih.execAll body)
  | branch condition yes no =>
    refine .bind (ih.eval condition) fun v => ?_
    split
    · exact ih.exec yes
    · cases no with
      | none => exact .refl _
      | some no => exact ih.exec no
  | loop condition body line =>
    refine .bind (ih.eval condition) fun v => ?_
    split
    · refine .bind (ih.exec body) fun c => ?_
      cases c with
      | normal => exact ih.exec (.loop condition body line)
      | returned v => exact .refl _
    · exact .refl _
  | func => exact .refl _

theorem execAll_succ (ss : List Stmt) :
    Approximates (Lox.execAll (n + 1) ss) (Lox.execAll (k + 1) ss) := by
  cases ss with
  | nil => exact .refl _
  | cons s ss =>
    refine .bind (ih.exec s) fun c => ?_
    cases c with
    | normal => exact ih.execAll ss
    | returned v => exact .refl _

end RunsApproximate

theorem runsApproximate (h : n ≤ k) : RunsApproximate n k := by
  induction n generalizing k with
  | zero => constructor <;> intros <;> exact .cutOff _
  | succ n ih =>
    obtain ⟨k, rfl⟩ := Nat.exists_eq_add_of_le' (Nat.lt_of_lt_of_le (Nat.succ_pos n) h)
    have ih := ih (Nat.le_of_succ_le_succ h)
    exact ⟨ih.eval_succ, ih.evalAll_succ, ih.call_succ, ih.exec_succ, ih.execAll_succ⟩

/-- The outcome of a statement does not depend on the fuel. -/
theorem exec_deterministic {s : Stmt} {o o' : Except RuntimeError Completion × Machine}
    (h : exec n s m = some o) (h' : exec k s m = some o') : o = o' := by
  have hmore := (runsApproximate (Nat.le_max_left n k)).exec s m o h
  have hmore' := (runsApproximate (Nat.le_max_right n k)).exec s m o' h'
  exact Option.some.inj (hmore.symm.trans hmore')

-- ---------------------------------------------------------------------------
-- Programs in two parts
-- ---------------------------------------------------------------------------

theorem execAll_cons_normal {s : Stmt} {ss : List Stmt} {m' : Machine} :
    execAll (n + 1) (s :: ss) m = some (.ok .normal, m') ↔
      ∃ m₁, exec n s m = some (.ok .normal, m₁) ∧ execAll n ss m₁ = some (.ok .normal, m') := by
  rw [execAll, bind_eq_ok_iff]
  constructor
  · rintro ⟨c, m₁, hs, hss⟩
    cases c with
    | normal => exact ⟨m₁, hs, hss⟩
    | returned v => cases hss
  · rintro ⟨m₁, hs, hss⟩
    exact ⟨.normal, m₁, hs, hss⟩

/-- What comes after a statement that completes. -/
theorem execAll_cons_of_normal {s : Stmt} {ss : List Stmt}
    (h : exec n s m = some (.ok .normal, m₁)) : execAll (n + 1) (s :: ss) m = execAll n ss m₁ := by
  rw [execAll, bind_apply, h]

/-- Behind a part that completes the rest runs as it would by itself. -/
theorem execAll_append {ss ts : List Stmt} {o : Except RuntimeError Completion × Machine}
    (hss : execAll n ss m = some (.ok .normal, m₁)) (hts : execAll k ts m₁ = some o) :
    execAll (n + k) (ss ++ ts) m = some o := by
  induction ss generalizing n m with
  | nil =>
    cases n with
    | zero => cases hss
    | succ n =>
      cases hss
      exact (runsApproximate (Nat.le_add_left k _)).execAll ts _ o hts
  | cons s ss ih =>
    cases n with
    | zero => cases hss
    | succ n =>
      obtain ⟨m₂, hs, hss⟩ := execAll_cons_normal.1 hss
      have hs := (runsApproximate (Nat.le_add_right n k)).exec s m _ hs
      rw [Nat.succ_add, List.cons_append, execAll_cons_of_normal hs]
      exact ih hss

/-- A run of both parts contains the run of the second one. -/
theorem execAll_of_append {ss ts : List Stmt} {o : Except RuntimeError Completion × Machine}
    (hss : execAll n ss m = some (.ok .normal, m₁)) (h : execAll k (ss ++ ts) m = some o) :
    execAll k ts m₁ = some o := by
  induction ss generalizing n k m with
  | nil =>
    cases n with
    | zero => cases hss
    | succ n =>
      cases hss
      exact h
  | cons s ss ih =>
    cases n with
    | zero => cases hss
    | succ n =>
      cases k with
      | zero => cases h
      | succ k =>
        obtain ⟨m₂, hs, hss⟩ := execAll_cons_normal.1 hss
        have hks : exec k s m = some (.ok .normal, m₂) := by
          cases hk : exec k s m with
          | none => rw [List.cons_append, execAll, bind_apply, hk] at h; cases h
          | some o' => rw [exec_deterministic hk hs]
        rw [List.cons_append, execAll_cons_of_normal hks] at h
        exact (runsApproximate (Nat.le_succ k)).execAll ts m₁ o (ih hss h)

theorem interpret_append {ss ts : List Stmt} {o : Except RuntimeError Unit × Machine}
    (hss : execAll n ss m = some (.ok .normal, m₁)) (hts : interpret k ts m₁ = some o) :
    interpret (n + k) (ss ++ ts) m = some o := by
  have hrun (o') (h : execAll k ts m₁ = some o') : execAll (n + k) (ss ++ ts) m = some o' :=
    execAll_append hss h
  rw [interpret, bind_apply] at hts ⊢
  cases h : execAll k ts m₁ with
  | none => rw [h] at hts; cases hts
  | some o' => rwa [hrun o' h, ← h]

theorem interpret_of_append {ss ts : List Stmt} {o : Except RuntimeError Unit × Machine}
    (hss : execAll n ss m = some (.ok .normal, m₁)) (h : interpret k (ss ++ ts) m = some o) :
    interpret k ts m₁ = some o := by
  rw [interpret, bind_apply] at h ⊢
  cases hrun : execAll k (ss ++ ts) m with
  | none => rw [hrun] at h; cases h
  | some o' => rwa [execAll_of_append hss hrun, ← hrun]

end Lox
