-- SUMMARY: From moment to moment of a run the store only grows, and no scope gets another parent.
import Lox.Proofs.Attempt
import Lox.Proofs.Run.Phase
import Lox.Proofs.Scoping.Chain

/-!
## Growth

What a store has at some moment of a run it has at all later ones: the scopes, each under its
parent, with their names (`Phase.grown`). A phase that ends comes after all of its parts, and
whatever the code still does behind a part lets the store grow.
-/

namespace Lox

open Attempt

variable {α β : Type} {m m' : Machine}

-- ---------------------------------------------------------------------------
-- Runs under which the store grows
-- ---------------------------------------------------------------------------

namespace Run

def Grows (x : Run α) : Prop :=
  ∀ m r m', x m = some (r, m') → m.store.Grown m'.store

namespace Grows

theorem of_kept {w : List String} {x : Run α} {P : α → Prop}
    (h : Discipline.kept.Keeps w x P) : Grows x :=
  fun m r m' hx => (h m r m' trivial hx).1.scopes.grown

theorem pure (a : α) : Grows (Pure.pure a) :=
  of_kept (w := []) (.pure (P := fun _ => True) trivial)

theorem located {line : Nat} (x : Except Fault Value) : Grows (Run.located line x) :=
  of_kept (w := []) (.locatedOf line fun _ _ => trivial)

theorem bind {x : Run α} {f : α → Run β} (hx : Grows x) (hf : ∀ a, Grows (f a)) :
    Grows (x >>= f) := by
  intro m r m' h
  rcases bind_eq_some h with ⟨e, hxm, -⟩ | ⟨a, m₁, hxm, hfm⟩
  · exact hx _ _ _ hxm
  · exact (hx _ _ _ hxm).trans (hf a _ _ _ hfm)

theorem eval (n : Nat) (e : Expr) : Grows (eval n e) :=
  fun _ _ _ h => (eval_kept h).scopes.grown

theorem evalAll (n : Nat) (es : List Expr) : Grows (evalAll n es) :=
  fun _ _ _ h => (evalAll_kept h).scopes.grown

theorem call (n : Nat) (f : Value) (vs : List Value) (line : Nat) : Grows (call n f vs line) :=
  fun _ _ _ h => (call_kept h).scopes.grown

theorem exec (n : Nat) (s : Stmt) : Grows (exec n s) :=
  fun _ _ _ h => (exec_kept h).scopes.grown

theorem execAll (n : Nat) (ss : List Stmt) : Grows (execAll n ss) :=
  fun _ _ _ h => (execAll_kept h).scopes.grown

theorem branch (n : Nat) (v : Value) (yes : Stmt) (no : Option Stmt) :
    Grows (if v.isTrue then Lox.exec n yes else
      match no with
      | some s => Lox.exec n s
      | none => return .normal) := by
  split
  · exact .exec n yes
  · cases no with
    | none => exact .pure _
    | some no => exact .exec n no

theorem again (n : Nat) (c : Completion) (condition : Expr) (body : Stmt) (line : Nat) :
    Grows (match c with
      | .normal => Lox.exec n (.loop condition body line)
      | .returned v => return .returned v) := by
  cases c with
  | normal => exact .exec n _
  | returned v => exact .pure _

theorem turn (n : Nat) (v : Value) (condition : Expr) (body : Stmt) (line : Nat) :
    Grows (if v.isTrue then do
        match ← Lox.exec n body with
        | .normal => Lox.exec n (.loop condition body line)
        | .returned v => return .returned v
      else
        return .normal) := by
  split
  · exact .bind (.exec n body) fun c => .again n c condition body line
  · exact .pure _

theorem following (n : Nat) (c : Completion) (ss : List Stmt) :
    Grows (match c with
      | .normal => Lox.execAll n ss
      | .returned v => return .returned v) := by
  cases c with
  | normal => exact .execAll n ss
  | returned v => exact .pure _

end Grows

theorem left?_of_eq {x : Run α} {r : Except RuntimeError α} (h : x m = some (r, m')) :
    left? x m = some m' := by
  rw [left?, h]
  rfl

/-- A run in two parts that ends has come through the end of its first part. -/
theorem left?_bind {x : Run α} {f : α → Run β} (hf : ∀ a, Grows (f a))
    (h : left? (x >>= f) m = some m') : ∃ m₁, left? x m = some m₁ ∧ m₁.store.Grown m'.store := by
  obtain ⟨⟨r, m₂⟩, hrun, rfl⟩ := Option.map_eq_some_iff.1 h
  rcases bind_eq_some hrun with ⟨e, hxm, -⟩ | ⟨a, m₁, hxm, hfm⟩
  · exact ⟨m₂, left?_of_eq hxm, .refl _⟩
  · exact ⟨m₁, left?_of_eq hxm, hf a _ _ _ hfm⟩

end Run

-- ---------------------------------------------------------------------------
-- Phases
-- ---------------------------------------------------------------------------

namespace Phase

variable {j k : Nat} {c c' : Phase}

/-- The store grows until a part of a phase starts. -/
theorem Part.grown (h : Part j c c') : c.machine.store.Grown c'.machine.store := by
  cases h with
  | first => exact .refl _
  | right h | logicalRight h | arguments h | tail h | yes h | no h | turn h =>
    exact Run.Grows.eval _ _ _ _ _ h
  | call h h' => exact (Run.Grows.eval _ _ _ _ _ h).trans (Run.Grows.evalAll _ _ _ _ _ h')
  | again h _ h' => exact (Run.Grows.eval _ _ _ _ _ h).trans (Run.Grows.exec _ _ _ _ _ h')
  | rest h => exact Run.Grows.exec _ _ _ _ _ h
  | @body _ f vs _ m => exact Store.grown_enter (m.calling f.scope) _
  | @block _ _ _ m => exact Store.grown_enter m []

theorem grown_of_end (h : c.end? = some m) : c.machine.store.Grown m.store := by
  obtain ⟨n, code, m₀⟩ := c
  cases code <;> obtain ⟨⟨r, m₁⟩, hrun, rfl⟩ := Option.map_eq_some_iff.1 h
  · exact Run.Grows.eval _ _ _ _ _ hrun
  · exact Run.Grows.evalAll _ _ _ _ _ hrun
  · exact Run.Grows.call _ _ _ _ _ _ _ hrun
  · exact Run.Grows.exec _ _ _ _ _ hrun
  · exact Run.Grows.execAll _ _ _ _ _ hrun

/-- A part that runs first is followed by the rest of the code, if it ends with a value. -/
theorem end_of_first {n : Nat} {code code' : Code} (hfirst : code.first? = some code')
    (h : end? ⟨n + 1, code, m⟩ = some m') :
    ∃ m₁, end? ⟨n, code', m⟩ = some m₁ ∧ m₁.store.Grown m'.store := by
  cases code with
  | eval e =>
    change Run.left? (Lox.eval (n + 1) e) m = some m' at h
    cases e with
    | literal | var => cases hfirst
    | assign name value line =>
      cases hfirst
      have hassign (v : Value) : Run.Grows (Run.assign name v line) :=
        .of_kept (.assign (e := .var name line) line trivial trivial)
      exact Run.left?_bind (fun v => .bind (hassign v) fun _ => .pure _) h
    | binary op left right line =>
      cases hfirst
      exact Run.left?_bind (fun v => .bind (.eval n right) fun w => .located _) h
    | logical op left right line =>
      cases hfirst
      refine Run.left?_bind (fun v => ?_) h
      split
      · exact .eval n right
      · exact .pure _
      · exact .pure _
      · exact .eval n right
    | unary op operand line =>
      cases hfirst
      exact Run.left?_bind (fun v => .located _) h
    | group inner =>
      cases hfirst
      exact ⟨m', h, .refl _⟩
    | call callee es line =>
      cases hfirst
      exact Run.left?_bind (fun f => .bind (.evalAll n es) fun vs => .call n f vs line) h
  | evalAll es =>
    cases es with
    | nil => cases hfirst
    | cons e es =>
      cases hfirst
      exact Run.left?_bind (fun v => .bind (.evalAll n es) fun _ => .pure _) h
  | call => cases hfirst
  | exec s =>
    change Run.left? (Lox.exec (n + 1) s) m = some m' at h
    cases s with
    | block | func => cases hfirst
    | expr e | ret e =>
      cases hfirst
      exact Run.left?_bind (fun v => .pure _) h
    | print e =>
      cases hfirst
      exact Run.left?_bind (fun v => .bind (.of_kept (.print v.text)) fun _ => .pure _) h
    | var name e =>
      cases hfirst
      have hdefine (v : Value) : Run.Grows (Run.define name.text v) :=
        .of_kept (.define name.text trivial)
      exact Run.left?_bind (fun v => .bind (hdefine v) fun _ => .pure _) h
    | branch condition yes no line =>
      cases hfirst
      exact Run.left?_bind (fun v => .branch n v yes no) h
    | loop condition body line =>
      cases hfirst
      exact Run.left?_bind (fun v => .turn n v condition body line) h
  | execAll ss =>
    cases ss with
    | nil => cases hfirst
    | cons s ss =>
      cases hfirst
      exact Run.left?_bind (fun c => .following n c ss) h

/-- The store grows from the end of a part on. -/
theorem Part.end_grown (h : Part j c c') (hend : c.end? = some m) :
    ∃ m₁, c'.end? = some m₁ ∧ m₁.store.Grown m.store := by
  cases h with
  | first hfirst => exact end_of_first hfirst hend
  | @right n op left right line m₀ v m₁ h =>
    change Run.left? (Lox.eval (n + 1) _) m₀ = some m at hend
    rw [Run.left?, Lox.eval, bind_of_ok h] at hend
    exact Run.left?_bind (fun w => .located _) hend
  | @logicalRight n op left right line m₀ v m₁ h hop =>
    change Run.left? (Lox.eval (n + 1) _) m₀ = some m at hend
    rw [Run.left?, Lox.eval, bind_of_ok h] at hend
    refine ⟨m, ?_, .refl _⟩
    cases op <;> cases hv : v.isNil <;> simp only [hv] at hop hend
    · exact hend
    · simp at hop
    · simp at hop
    · exact hend
  | @arguments n callee es line m₀ f m₁ h =>
    change Run.left? (Lox.eval (n + 1) _) m₀ = some m at hend
    rw [Run.left?, Lox.eval, bind_of_ok h] at hend
    exact Run.left?_bind (fun vs => .call n f vs line) hend
  | @call n callee es line m₀ f m₁ vs m₂ h h' =>
    change Run.left? (Lox.eval (n + 1) _) m₀ = some m at hend
    rw [Run.left?, Lox.eval, bind_of_ok h, bind_of_ok h'] at hend
    exact ⟨m, hend, .refl _⟩
  | @tail n e es m₀ v m₁ h =>
    change Run.left? (Lox.evalAll (n + 1) _) m₀ = some m at hend
    rw [Run.left?, Lox.evalAll, bind_of_ok h] at hend
    exact Run.left?_bind (fun vs => .pure _) hend
  | @body n f vs line m₀ hcount hdepth =>
    change Run.left? (Lox.call (n + 1) _ _ _) m₀ = some m at hend
    rw [Run.left?, Lox.call, bind_of_ok (a := ()) (Run.checkCount_eq_ok_iff.2 ⟨hcount, rfl⟩),
      Run.checkDepth_room _ hdepth] at hend
    obtain ⟨⟨r, m₁⟩, hframe, rfl⟩ := Option.map_eq_some_iff.1 hend
    obtain ⟨m₂, hscope, rfl⟩ := Run.inFrame_eq_some_iff.1 hframe
    obtain ⟨m₃, hbody, rfl⟩ := Run.inScope_eq_some_iff.1 hscope
    have hleft := Run.left?_of_eq hbody
    obtain ⟨m₄, hend', hgrown⟩ := Run.left?_bind (fun _ => .pure _) hleft
    exact ⟨m₄, hend', hgrown⟩
  | @block n body line m₀ =>
    obtain ⟨⟨r, m₁⟩, hrun, rfl⟩ := Option.map_eq_some_iff.1 hend
    obtain ⟨m₂, hbody, rfl⟩ := Run.inScope_eq_some_iff.1 hrun
    exact ⟨m₂, Option.map_eq_some_iff.2 ⟨_, hbody, rfl⟩, .refl _⟩
  | @yes n condition yes no line m₀ v m₁ h hv =>
    change Run.left? (Lox.exec (n + 1) _) m₀ = some m at hend
    rw [Run.left?, Lox.exec.eq_def] at hend
    dsimp only at hend
    rw [bind_of_ok h, if_pos hv] at hend
    exact ⟨m, hend, .refl _⟩
  | @no n condition yes no line m₀ v m₁ h hv =>
    change Run.left? (Lox.exec (n + 1) _) m₀ = some m at hend
    rw [Run.left?, Lox.exec, bind_of_ok h, if_neg (by simp [hv])] at hend
    exact ⟨m, hend, .refl _⟩
  | @turn n condition body line m₀ v m₁ h hv =>
    change Run.left? (Lox.exec (n + 1) _) m₀ = some m at hend
    rw [Run.left?, Lox.exec, bind_of_ok h, if_pos hv] at hend
    exact Run.left?_bind (fun c => .again n c condition body line) hend
  | @again n condition body line m₀ v m₁ m₂ h hv h' =>
    change Run.left? (Lox.exec (n + 1) _) m₀ = some m at hend
    rw [Run.left?, Lox.exec, bind_of_ok h, if_pos hv, bind_of_ok h'] at hend
    exact ⟨m, hend, .refl _⟩
  | @rest n s ss m₀ m₁ h =>
    change Run.left? (Lox.execAll (n + 1) _) m₀ = some m at hend
    rw [Run.left?, Lox.execAll, bind_of_ok h] at hend
    exact ⟨m, hend, .refl _⟩

theorem Contains.grown (h : Contains k c c') :
    c.machine.store.Grown c'.machine.store ∧
      ∀ m, c.end? = some m → ∃ m₁, c'.end? = some m₁ ∧ m₁.store.Grown m.store := by
  induction h with
  | self => exact ⟨.refl _, fun m h => ⟨m, h, .refl _⟩⟩
  | part hpart _ ih =>
    refine ⟨hpart.grown.trans ih.1, fun m h => ?_⟩
    obtain ⟨m₁, hend, hgrown⟩ := hpart.end_grown h
    obtain ⟨m₂, hend', hgrown'⟩ := ih.2 m₁ hend
    exact ⟨m₂, hend', hgrown'.trans hgrown⟩

/-- From the start of a phase to any of its moments, and on to the end, if there is one. -/
theorem Passes.grown (h : c.Passes m) :
    c.machine.store.Grown m.store ∧ ∀ m', c.end? = some m' → m.store.Grown m'.store := by
  cases h with
  | start h =>
    refine ⟨h.grown.1, fun m' hend => ?_⟩
    obtain ⟨m₁, hend', hgrown⟩ := h.grown.2 m' hend
    exact (grown_of_end hend').trans hgrown
  | finish h hfinish =>
    refine ⟨h.grown.1.trans (grown_of_end hfinish), fun m' hend => ?_⟩
    obtain ⟨m₁, hend', hgrown⟩ := h.grown.2 m' hend
    cases hend'.symm.trans hfinish
    exact hgrown

end Phase

end Lox
