-- SUMMARY: Whoever works on a machine by running code finds it at the same place afterwards.
import Lox.Proofs.Run.Kept

/-!
## Hosts

A host runs statements, expressions and programs on a machine, sees how each of them ended and goes
on as it likes. Statements, expressions and hosts restore the machine on every exit: the open scopes
are the very same, so are the global scope and the open calls, and nothing of the output is lost
(`scopes_restored`).
-/

namespace Lox

/-- A machine after some work, at the place that it was at before. -/
structure Machine.Restored (m m' : Machine) : Prop where
  scopes : m'.env.scopes = m.env.scopes
  global : m'.env.global = m.env.global
  callDepth : m'.callDepth = m.callDepth
  callLimit : m'.callLimit = m.callLimit
  output : ∃ text, m'.output = m.output ++ text

theorem Machine.Kept.restored {names : List String} {m m' : Machine}
    (h : Machine.Kept names m m') : m.Restored m' where
  scopes := by rw [h.env]
  global := by rw [h.env]
  callDepth := h.callDepth
  callLimit := h.callLimit
  output := h.output

namespace Machine.Restored

variable {m m₁ m' : Machine}

theorem refl (m : Machine) : m.Restored m :=
  (Kept.refl [] m).restored

theorem trans (h : m.Restored m₁) (h' : m₁.Restored m') : m.Restored m' where
  scopes := h'.scopes.trans h.scopes
  global := h'.global.trans h.global
  callDepth := h'.callDepth.trans h.callDepth
  callLimit := h'.callLimit.trans h.callLimit
  output := by
    obtain ⟨t, ht⟩ := h.output
    obtain ⟨u, hu⟩ := h'.output
    exact ⟨t ++ u, by rw [hu, ht, String.append_assoc]⟩

theorem leave {bs : List (String × Value)} (h : (m.enter bs).Restored m₁) :
    m.Restored m₁.leave where
  scopes := by
    have henclosing : m₁.env.enclosing = m.env.current :: m.env.enclosing :=
      (List.cons.inj h.scopes).2
    rw [Machine.leave, Environment.pop, henclosing]
    rfl
  global := by
    rw [Machine.leave, Environment.pop]
    split
    · exact h.global
    · exact h.global
  callDepth := h.callDepth
  callLimit := h.callLimit
  output := h.output

theorem back {i : ScopeId} (h : (m.calling i).Restored m₁) : m.Restored (m₁.returningTo m) :=
  ⟨rfl, rfl, rfl, h.callLimit, h.output⟩

end Machine.Restored

/-- Work on a machine. An error of the code that is run does not end it, but is seen like any other
outcome. -/
inductive Host (α : Type) where
  | done (result : Except RuntimeError α)
  | eval (e : Expr) (next : Except RuntimeError Value → Host α)
  | exec (s : Stmt) (next : Except RuntimeError Completion → Host α)
  | interpret (program : List Stmt) (next : Except RuntimeError Unit → Host α)

namespace Host

variable {α β : Type}

/-- Runs `x` and goes on with its outcome. -/
def andThen (x : Run α) (next : Except RuntimeError α → Run β) : Run β :=
  fun m =>
    match x m with
    | none => none
    | some (r, m) => next r m

/-- Does the work, with `n` units of fuel for each piece of code. -/
def run (n : Nat) : Host α → Run α
  | done result => Attempt.ofExcept result
  | eval e next => andThen (Lox.eval n e) fun r => (next r).run n
  | exec s next => andThen (Lox.exec n s) fun r => (next r).run n
  | interpret program next => andThen (Lox.interpret n program) fun r => (next r).run n

variable {m m' : Machine}

theorem andThen_eq_some_iff {x : Run α} {next : Except RuntimeError α → Run β}
    {r : Except RuntimeError β} :
    andThen x next m = some (r, m') ↔ ∃ r₁ m₁, x m = some (r₁, m₁) ∧ next r₁ m₁ = some (r, m') := by
  unfold andThen
  cases x m with
  | none => simp
  | some result =>
    constructor
    · exact fun h => ⟨result.1, result.2, rfl, h⟩
    · rintro ⟨r₁, m₁, ⟨⟩, h⟩
      exact h

end Host

theorem interpret_kept {n : Nat} {program : List Stmt} {m m' : Machine}
    {r : Except RuntimeError Unit} (h : interpret n program m = some (r, m')) :
    Machine.Kept (Stmt.declaredAll program) m m' := by
  cases r with
  | ok u =>
    obtain ⟨c, m₁, hrun, hend⟩ := Attempt.bind_eq_ok_iff.1 h
    cases hend
    exact execAll_kept hrun
  | error e =>
    rcases Attempt.bind_eq_error_iff.1 h with hrun | ⟨c, m₁, -, hend⟩
    · exact execAll_kept hrun
    · cases hend

/-- The names that the work of a host may declare in the current scope are of no account here, so
any number of them is enough. -/
theorem Host.run_kept {α : Type} {n : Nat} {m m' : Machine} (w : Host α)
    {r : Except RuntimeError α} (h : w.run n m = some (r, m')) :
    ∃ names, Machine.Kept names m m' := by
  induction w generalizing m with
  | done result =>
    cases h
    exact ⟨[], .refl [] _⟩
  | eval e next ih =>
    obtain ⟨r₁, m₁, hrun, hnext⟩ := Host.andThen_eq_some_iff.1 h
    obtain ⟨names, hkept⟩ := ih r₁ hnext
    exact ⟨names, ((eval_kept hrun).mono (List.nil_subset _)).trans hkept⟩
  | exec s next ih =>
    obtain ⟨r₁, m₁, hrun, hnext⟩ := Host.andThen_eq_some_iff.1 h
    obtain ⟨names, hkept⟩ := ih r₁ hnext
    exact ⟨s.declared ++ names, ((exec_kept hrun).mono (List.subset_append_left _ _)).trans
      (hkept.mono (List.subset_append_right _ _))⟩
  | interpret program next ih =>
    obtain ⟨r₁, m₁, hrun, hnext⟩ := Host.andThen_eq_some_iff.1 h
    obtain ⟨names, hkept⟩ := ih r₁ hnext
    exact ⟨Stmt.declaredAll program ++ names,
      ((interpret_kept hrun).mono (List.subset_append_left _ _)).trans
        (hkept.mono (List.subset_append_right _ _))⟩

theorem scopes_restored {α : Type} (n : Nat) (m m' : Machine) :
    (∀ s r, exec n s m = some (r, m') → m.Restored m') ∧
      (∀ e r, eval n e m = some (r, m') → m.Restored m') ∧
        ∀ bindings (w : Host α) r, Run.inScope bindings (w.run n) m = some (r, m') →
          m.Restored m' := by
  refine ⟨fun s r h => (exec_kept h).restored, fun e r h => (eval_kept h).restored, ?_⟩
  intro bindings w r h
  obtain ⟨m₁, hrun, rfl⟩ := Run.inScope_eq_some_iff.1 h
  obtain ⟨names, hkept⟩ := w.run_kept hrun
  exact hkept.leave.restored

/-- The block `{ { var a; a(); } }` fails in its inner block, also if a host runs it among bindings
of its own and goes on after the error. -/
theorem failing_block_is_left :
    let a : Expr := .var "a" 1
    let inner : Stmt := .block [.var ⟨"a", 1⟩ (.literal .nil 1) 1, .expr (.call a [] 1) 1] 1
    let m : Machine := .start 1 [] 0
    let w : Host Value := .exec (.block [inner] 1) fun _ => .eval a .done
    ∃ m₁ m₂, exec 9 (.block [inner] 1) m = some (.error ⟨.notCallable "nil", some 1⟩, m₁) ∧
      Run.inScope [("a", .boolean true)] (w.run 9) m = some (.ok (.boolean true), m₂) ∧
        m.Restored m₁ ∧ m.Restored m₂ := by
  intro a inner m w
  refine ⟨?m₁, ?m₂, ?block, ?host, (@scopes_restored Value 9 m _).1 _ _ ?block,
    (@scopes_restored Value 9 m _).2.2 _ _ _ ?host⟩
  case block => rfl
  case host => rfl

end Lox
