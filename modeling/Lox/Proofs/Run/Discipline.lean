-- SUMMARY: Disciplines: what every step of a run respects, every run respects.
import Lox.Proofs.Store.Operations
import Lox.Proofs.Tree.Nodes
import Lox.Proofs.Value.Plain
import Lox.Run.Eval

/-!
## Disciplines

A discipline says how a machine may change. It has an invariant of machines, a property of values
and a relation between the machine before and after, which also depends on the names that may be
declared in the current scope meanwhile. If the steps of a machine respect it, so do all runs of
code with permitted nodes only (`Discipline.runs`).
-/

namespace Lox

structure Discipline where
  /-- The expressions that may stand in code. -/
  Permitted : Expr → Prop
  /-- What holds of the machine all the time. -/
  Inv : Machine → Prop
  /-- What holds of every value. -/
  Val : Value → Prop
  /-- What holds between two states of a machine, if the current scope may get the given names. -/
  Rel : List String → Machine → Machine → Prop
  inv : ∀ {xs m m'}, Rel xs m m' → Inv m'
  refl : ∀ xs {m}, Inv m → Rel xs m m
  trans : ∀ {xs m m₁ m₂}, Rel xs m m₁ → Rel xs m₁ m₂ → Rel xs m m₂
  mono : ∀ {xs ys m m'}, xs ⊆ ys → Rel xs m m' → Rel ys m m'
  /-- Nothing is asked of values that are no functions. -/
  plain : ∀ {v : Value}, v.Plain → Val v
  body : ∀ {f : Function}, Val (.function f) → ∀ e ∈ Stmt.nodesAll f.body, Permitted e
  lookup : ∀ {m name v}, Inv m → m.lookup name = some v → Val v
  builtin : ∀ {m b vs v}, Inv m → b ∈ m.builtins → (∀ v ∈ vs, Val v) →
    b.run vs m.moment = .ok v → Val v
  tick : ∀ {m}, Inv m → Rel [] m m.tick
  print : ∀ {m} text, Inv m → Rel [] m { m with output := m.output ++ text ++ "\n" }
  assign : ∀ {m name e line v i}, Inv m → Permitted (.assign name e line) → Val v →
    m.store.holder? name m.env.current = some i →
    Rel [] m { m with store := m.store.define i name v }
  define : ∀ {m} name {v}, Inv m → Val v → Rel [name] m (m.define name v)
  declare : ∀ {m} name parameters {body}, Inv m → (∀ e ∈ Stmt.nodesAll body, Permitted e) →
    Rel [name] m (m.declare name parameters body)
  enter : ∀ {m bs}, Inv m → (∀ b ∈ bs, Val b.2) → Inv (m.enter bs)
  leave : ∀ {xs m bs m₁}, Inv m → Rel xs (m.enter bs) m₁ → Rel [] m m₁.leave
  call : ∀ {m f}, Inv m → Val (.function f) → Inv (m.calling f.scope)
  back : ∀ {m i m₁}, Inv m → Rel [] (m.calling i) m₁ → Rel [] m (m₁.returningTo m)

namespace Discipline

/-- `x` respects the discipline, and its value has the property `P`. -/
def Keeps {α : Type} (D : Discipline) (xs : List String) (x : Run α) (P : α → Prop) : Prop :=
  ∀ m r m', D.Inv m → x m = some (r, m') → D.Rel xs m m' ∧ ∀ a, r = .ok a → P a

variable {D : Discipline} {α β : Type} {xs ys : List String} {P : α → Prop} {Q : β → Prop}

-- ---------------------------------------------------------------------------
-- Steps
-- ---------------------------------------------------------------------------

namespace Keeps

theorem pure {a : α} (h : P a) : D.Keeps xs (Pure.pure a) P := by
  intro m r m' hm hx
  cases hx
  exact ⟨D.refl xs hm, by rintro _ ⟨⟩; exact h⟩

theorem fail (fault : Fault) (line : Nat) : D.Keeps xs (Run.fail fault line) P := by
  intro m r m' hm hx
  cases hx
  exact ⟨D.refl xs hm, by rintro _ ⟨⟩⟩

theorem cutOff : D.Keeps xs Attempt.cutOff P := by
  intro m r m' hm hx
  cases hx

theorem bind {x : Run α} {f : α → Run β} (hx : D.Keeps xs x P)
    (hf : ∀ a, P a → D.Keeps xs (f a) Q) : D.Keeps xs (x >>= f) Q := by
  intro m r m' hm h
  cases r with
  | ok b =>
    obtain ⟨a, m₁, hxm, hfm⟩ := Attempt.bind_eq_ok_iff.1 h
    obtain ⟨hrel, ha⟩ := hx m _ m₁ hm hxm
    obtain ⟨hrel', hb⟩ := hf a (ha a rfl) m₁ _ m' (D.inv hrel) hfm
    exact ⟨D.trans hrel hrel', hb⟩
  | error e =>
    refine ⟨?_, by rintro _ ⟨⟩⟩
    rcases Attempt.bind_eq_error_iff.1 h with hxm | ⟨a, m₁, hxm, hfm⟩
    · exact (hx m _ m' hm hxm).1
    · obtain ⟨hrel, ha⟩ := hx m _ m₁ hm hxm
      exact D.trans hrel (hf a (ha a rfl) m₁ _ m' (D.inv hrel) hfm).1

theorem mono {x : Run α} (h : D.Keeps xs x P) (hxs : xs ⊆ ys) : D.Keeps ys x P :=
  fun m r m' hm hx => (h m r m' hm hx).imp_left (D.mono hxs)

theorem locatedOf {x : Except Fault Value} (line : Nat) (h : ∀ v, x = .ok v → D.Val v) :
    D.Keeps xs (Run.located line x) D.Val := by
  cases x with
  | ok v => exact .pure (h v rfl)
  | error fault => exact .fail fault line

theorem located {x : Except Fault Value} (line : Nat) (h : PlainResult x) :
    D.Keeps xs (Run.located line x) D.Val :=
  locatedOf line fun v hv => D.plain (by rw [hv] at h; exact h)

theorem print (text : String) : D.Keeps [] (Run.print text) fun _ => True := by
  intro m r m' hm hx
  cases hx
  exact ⟨D.print text hm, fun _ _ => trivial⟩

theorem define (name : String) {v : Value} (hv : D.Val v) :
    D.Keeps [name] (Run.define name v) fun _ => True := by
  intro m r m' hm hx
  cases hx
  exact ⟨D.define name hm hv, fun _ _ => trivial⟩

theorem declare (name : String) (parameters : List String) {body : List Stmt}
    (h : ∀ e ∈ Stmt.nodesAll body, D.Permitted e) :
    D.Keeps [name] (Run.declare name parameters body) fun _ => True := by
  intro m r m' hm hx
  cases hx
  exact ⟨D.declare name parameters hm h, fun _ _ => trivial⟩

theorem lookup (name : String) (line : Nat) : D.Keeps [] (Run.lookup name line) D.Val := by
  intro m r m' hm hx
  rw [Run.lookup, Attempt.bind_apply, Attempt.gets_apply] at hx
  cases h : m.lookup name with
  | some v =>
    simp only [h] at hx
    cases hx
    exact ⟨D.refl [] hm, by rintro _ ⟨⟩; exact D.lookup hm h⟩
  | none =>
    simp only [h] at hx
    cases hx
    exact ⟨D.refl [] hm, by rintro _ ⟨⟩⟩

theorem assign {name : String} {e : Expr} {v : Value} (line : Nat)
    (he : D.Permitted (.assign name e line)) (hv : D.Val v) :
    D.Keeps [] (Run.assign name v line) fun _ => True := by
  intro m r m' hm hx
  rw [Run.assign, Attempt.tryStep_apply] at hx
  cases h : m.store.holder? name m.env.current with
  | some i =>
    simp only [h] at hx
    cases hx
    exact ⟨D.assign hm he hv h, fun _ _ => trivial⟩
  | none =>
    simp only [h] at hx
    cases hx
    exact ⟨D.refl [] hm, fun _ _ => trivial⟩

theorem inScope {x : Run α} {bs : List (String × Value)} (hbs : ∀ b ∈ bs, D.Val b.2)
    (hx : D.Keeps xs x P) : D.Keeps [] (Run.inScope bs x) P := by
  intro m r m' hm h
  obtain ⟨m₁, hxm, rfl⟩ := Run.inScope_eq_some_iff.1 h
  obtain ⟨hrel, ha⟩ := hx _ _ _ (D.enter hm hbs) hxm
  exact ⟨D.leave hm hrel, ha⟩

theorem inFrame {x : Run α} {f : Function} (hf : D.Val (.function f)) (hx : D.Keeps [] x P) :
    D.Keeps [] (Run.inFrame f.scope x) P := by
  intro m r m' hm h
  obtain ⟨m₁, hxm, rfl⟩ := Run.inFrame_eq_some_iff.1 h
  obtain ⟨hrel, ha⟩ := hx _ _ _ (D.call hm hf) hxm
  exact ⟨D.back hm hrel, ha⟩

theorem checkCount (name : String) (expected got line : Nat) :
    D.Keeps xs (Run.checkCount name expected got line) fun _ => True := by
  unfold Run.checkCount
  split
  · exact .pure trivial
  · exact .fail _ _

theorem checkDepth (line : Nat) : D.Keeps xs (Run.checkDepth line) fun _ => True := by
  intro m r m' hm hx
  rw [Run.checkDepth, Attempt.bind_apply, Attempt.gets_apply] at hx
  dsimp only at hx
  split at hx <;> cases hx <;> exact ⟨D.refl xs hm, fun _ _ => trivial⟩

theorem callBuiltin (f : Native) {vs : List Value} (line : Nat) (hvs : ∀ v ∈ vs, D.Val v) :
    D.Keeps [] (Run.callBuiltin f vs line) D.Val := by
  intro m r m' hm hx
  rw [Run.callBuiltin_apply] at hx
  split at hx
  · next b h =>
    have hb : b ∈ m.builtins := List.mem_of_find?_eq_some h
    have htick := D.tick hm
    obtain ⟨hrel, hv⟩ := locatedOf line (fun v hv => D.builtin hm hb hvs hv) m.tick r m'
      (D.inv htick) hx
    exact ⟨D.trans htick hrel, hv⟩
  · exact fail _ _ m r m' hm hx

end Keeps

-- ---------------------------------------------------------------------------
-- Runs
-- ---------------------------------------------------------------------------

theorem val_normal (D : Discipline) : D.Val Completion.normal.value :=
  D.plain (Value.plain_ofLiteral .nil)

variable (D) in
/-- All runs with `n` units of fuel respect the discipline. -/
structure Runs (n : Nat) : Prop where
  eval : ∀ e : Expr, (∀ e' ∈ e.nodes, D.Permitted e') → D.Keeps [] (eval n e) D.Val
  evalAll : ∀ es, (∀ e ∈ Expr.nodesAll es, D.Permitted e) →
    D.Keeps [] (evalAll n es) fun vs => ∀ v ∈ vs, D.Val v
  call : ∀ f vs line, D.Val f → (∀ v ∈ vs, D.Val v) → D.Keeps [] (Lox.call n f vs line) D.Val
  exec : ∀ s : Stmt, (∀ e ∈ s.nodes, D.Permitted e) →
    D.Keeps s.declared (exec n s) fun c => D.Val c.value
  execAll : ∀ ss, (∀ e ∈ Stmt.nodesAll ss, D.Permitted e) →
    D.Keeps (Stmt.declaredAll ss) (execAll n ss) fun c => D.Val c.value

namespace Runs

variable {n : Nat} (ih : D.Runs n)

include ih

theorem eval_succ (e : Expr) (he : ∀ e' ∈ e.nodes, D.Permitted e') :
    D.Keeps [] (Lox.eval (n + 1) e) D.Val := by
  cases e with
  | literal l => exact .pure (D.plain (Value.plain_ofLiteral l))
  | var name line => exact .lookup name line
  | assign name value line =>
    rw [Expr.nodes, List.forall_mem_cons] at he
    exact .bind (ih.eval value he.2) fun v hv => .bind (.assign line he.1 hv) fun _ _ => .pure hv
  | binary op left right line =>
    rw [Expr.nodes, List.forall_mem_cons, List.forall_mem_append] at he
    exact .bind (ih.eval left he.2.1) fun v _ => .bind (ih.eval right he.2.2) fun w _ =>
      .located line (op.plain_apply v w)
  | logical op left right line =>
    rw [Expr.nodes, List.forall_mem_cons, List.forall_mem_append] at he
    refine .bind (ih.eval left he.2.1) fun v hv => ?_
    split
    · exact ih.eval right he.2.2
    · exact .pure hv
    · exact .pure (D.plain (Value.plain_ofLiteral .nil))
    · exact ih.eval right he.2.2
  | unary op operand line =>
    rw [Expr.nodes, List.forall_mem_cons] at he
    exact .bind (ih.eval operand he.2) fun v _ => .located line (op.plain_apply v)
  | group inner line =>
    rw [Expr.nodes, List.forall_mem_cons] at he
    exact ih.eval inner he.2
  | call callee arguments line =>
    rw [Expr.nodes, List.forall_mem_cons, List.forall_mem_append] at he
    exact .bind (ih.eval callee he.2.1) fun f hf =>
      .bind (ih.evalAll arguments he.2.2) fun vs hvs => ih.call f vs line hf hvs

theorem evalAll_succ (es : List Expr) (hes : ∀ e ∈ Expr.nodesAll es, D.Permitted e) :
    D.Keeps [] (Lox.evalAll (n + 1) es) fun vs => ∀ v ∈ vs, D.Val v := by
  cases es with
  | nil => exact .pure (by simp)
  | cons e es =>
    rw [Expr.nodesAll, List.forall_mem_append] at hes
    exact .bind (ih.eval e hes.1) fun v hv => .bind (ih.evalAll es hes.2) fun vs hvs =>
      .pure (List.forall_mem_cons.2 ⟨hv, hvs⟩)

theorem call_succ (f : Value) (vs : List Value) (line : Nat) (hf : D.Val f)
    (hvs : ∀ v ∈ vs, D.Val v) : D.Keeps [] (Lox.call (n + 1) f vs line) D.Val := by
  cases f with
  | function f =>
    have hparameters : ∀ b ∈ f.parameters.zip vs, D.Val b.2 :=
      fun b hb => hvs b.2 (List.of_mem_zip hb).2
    have hbody :
        D.Keeps (Stmt.declaredAll f.body) (return (← Lox.execAll n f.body).value) D.Val :=
      .bind (ih.execAll f.body (D.body hf)) fun c hc => .pure hc
    exact .bind (.checkCount _ _ _ line) fun _ _ => .bind (.checkDepth line) fun _ _ =>
      .inFrame hf (.inScope hparameters hbody)
  | native f =>
    exact .bind (.checkCount _ _ _ line) fun _ _ => .callBuiltin f line hvs
  | number | string | boolean | nil => exact .fail _ _

theorem exec_succ (s : Stmt) (hs : ∀ e ∈ s.nodes, D.Permitted e) :
    D.Keeps s.declared (Lox.exec (n + 1) s) fun c => D.Val c.value := by
  cases s with
  | expr e => exact .bind (ih.eval e hs) fun _ _ => .pure D.val_normal
  | print e =>
    exact .bind (ih.eval e hs) fun v _ => .bind (.print v.text) fun _ _ => .pure D.val_normal
  | var name e =>
    exact .bind ((ih.eval e hs).mono (List.nil_subset _)) fun v hv =>
      .bind (.define name.text hv) fun _ _ => .pure D.val_normal
  | block body => exact .inScope (by simp) (ih.execAll body hs)
  | branch condition yes no line =>
    rw [Stmt.nodes, List.forall_mem_append, List.forall_mem_append] at hs
    obtain ⟨hcondition, hyes, hno⟩ := hs
    refine .bind ((ih.eval condition hcondition).mono (List.nil_subset _)) fun v _ => ?_
    split
    · exact (ih.exec yes hyes).mono (List.subset_append_left _ _)
    · cases no with
      | none => exact .pure D.val_normal
      | some no => exact (ih.exec no hno).mono (List.subset_append_right _ _)
  | loop condition body line =>
    have hloop := ih.exec (.loop condition body line) hs
    rw [Stmt.nodes, List.forall_mem_append] at hs
    refine .bind ((ih.eval condition hs.1).mono (List.nil_subset _)) fun v _ => ?_
    split
    · refine .bind (ih.exec body hs.2) fun c hc => ?_
      cases c with
      | normal => exact hloop
      | returned v => exact .pure hc
    · exact .pure D.val_normal
  | func name parameters body line =>
    exact .bind (.declare name.text _ hs) fun _ _ => .pure D.val_normal
  | ret e => exact .bind (ih.eval e hs) fun v hv => .pure hv

theorem execAll_succ (ss : List Stmt) (hss : ∀ e ∈ Stmt.nodesAll ss, D.Permitted e) :
    D.Keeps (Stmt.declaredAll ss) (Lox.execAll (n + 1) ss) fun c => D.Val c.value := by
  cases ss with
  | nil => exact .pure D.val_normal
  | cons s ss =>
    rw [Stmt.nodesAll, List.forall_mem_append] at hss
    simp only [Stmt.declaredAll, List.flatMap_cons]
    refine .bind ((ih.exec s hss.1).mono (List.subset_append_left _ _)) fun c hc => ?_
    cases c with
    | normal => exact (ih.execAll ss hss.2).mono (List.subset_append_right _ _)
    | returned v => exact .pure hc

end Runs

theorem runs (D : Discipline) (n : Nat) : D.Runs n := by
  induction n with
  | zero => constructor <;> intros <;> exact .cutOff
  | succ n ih =>
    exact ⟨ih.eval_succ, ih.evalAll_succ, ih.call_succ, ih.exec_succ, ih.execAll_succ⟩

end Discipline
end Lox
