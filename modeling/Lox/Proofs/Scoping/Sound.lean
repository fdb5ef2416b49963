-- SUMMARY: A well-scoped program never misses a variable.
import Lox.Proofs.Scoping.Chain

/-!
## Lexical scoping is sound

The scope at which a run stands knows all the names that the walk over the program knows at that
point. A function carries its scope with it, and the invariant of the run is that every value in the
store is closed: the scope of a function knows the names that its body needs besides its parameters.
Calls, blocks and loops may nest in any way, since a scope that knows a name goes on knowing it.
-/

namespace Lox

/-- A function is closed if its body is well scoped among its parameters and the names that its
scope knows. -/
def Function.Closed (σ : Store) (f : Function) : Prop :=
  Stmt.AllOrderly f.body ∧
    ∃ Γ, σ.Knows f.scope Γ ∧ (Stmt.walkAll (f.parameters :: Γ) f.body).isSome = true

def Value.Closed (σ : Store) : Value → Prop
  | .function f => f.Closed σ
  | _ => True

/-- All values that are bound are closed, and natives neither make functions nor miss variables. -/
structure Machine.Closed (m : Machine) : Prop where
  values : ∀ {i x v}, m.store.get? i x = some v → v.Closed m.store
  builtins : ∀ b ∈ m.builtins, ∀ vs moment, PlainResult (b.run vs moment)

/-- A machine at the same place, with all scopes and names of the earlier one. -/
structure Machine.Grown (m m' : Machine) : Prop where
  env : m'.env = m.env
  builtins : m'.builtins = m.builtins
  store : m.store.Grown m'.store

variable {α β : Type} {m m₁ m' : Machine} {σ σ' : Store} {Γ Γ' : Known} {x name : String}
  {i : ScopeId} {v : Value} {bs : List (String × Value)} {line : Nat}

theorem Value.Plain.closed (h : v.Plain) : v.Closed σ := by
  cases v with
  | function f => exact absurd rfl h
  | number | string | boolean | nil | native => trivial

theorem Value.Closed.grown (h : v.Closed σ) (hσ : σ.Grown σ') : v.Closed σ' := by
  cases v with
  | function f =>
    obtain ⟨hbody, Γ, hknows, hwalk⟩ := h
    exact ⟨hbody, Γ, hknows.grown hσ, hwalk⟩
  | number | string | boolean | nil | native => trivial

namespace Machine

theorem Grown.refl (m : Machine) : m.Grown m :=
  ⟨rfl, rfl, .refl _⟩

theorem Grown.trans (h : m.Grown m₁) (h' : m₁.Grown m') : m.Grown m' where
  env := h'.env.trans h.env
  builtins := h'.builtins.trans h.builtins
  store := h.store.trans h'.store

theorem Kept.machine_grown {names : List String} (h : Kept names m m') : m.Grown m' :=
  ⟨h.env, h.builtins, h.scopes.grown⟩

theorem At.after (h : m.At i Γ) (hm : m.Grown m₁) (hΓ : m₁.store.Knows i Γ') :
    m₁.At i Γ' where
  current := by rw [hm.env, h.current]
  knows := hΓ

theorem At.grown (h : m.At i Γ) (hm : m.Grown m₁) : m₁.At i Γ :=
  h.after hm (h.knows.grown hm.store)

namespace Closed

theorem of_store_eq (h : m.Closed) (hstore : m'.store = m.store) (hb : m'.builtins = m.builtins) :
    m'.Closed where
  values := by rw [hstore]; exact h.values
  builtins := by rw [hb]; exact h.builtins

/-- A closed value may be bound anywhere. -/
theorem define (h : m.Closed)
    (hv : v.Closed (m.store.define i x v)) :
    Closed { m with store := m.store.define i x v } where
  values hw := by
    rcases Store.eq_or_get?_of_define hw with rfl | hw
    · exact hv
    · exact (h.values hw).grown (Store.Kept.define m.store i x v).grown
  builtins := h.builtins

theorem enter (h : m.Closed) (hbs : ∀ b ∈ bs, b.2.Closed m.store) : (m.enter bs).Closed where
  values hw := by
    have hgrown := Store.grown_enter m bs
    rcases mem_or_get?_of_enter hw with ⟨b, hb, rfl⟩ | hw
    · exact (hbs b hb).grown hgrown
    · exact (h.values hw).grown hgrown
  builtins := h.builtins

end Closed
end Machine

-- ---------------------------------------------------------------------------
-- Steps
-- ---------------------------------------------------------------------------

/-- A value with the property `P` in the store, or a fault that is not about a variable. -/
def Found (P : Store → α → Prop) (σ : Store) : Except RuntimeError α → Prop
  | .ok a => P σ a
  | .error e => e.fault.Plain

/-- From `m` on, `x` misses no variable and keeps the machine closed. Its value has the property
`P` in the store that it leaves. -/
def Finds (m : Machine) (x : Run α) (P : Store → α → Prop) : Prop :=
  ∀ r m', x m = some (r, m') → m.Grown m' ∧ m'.Closed ∧ Found P m'.store r

namespace Finds

variable {P : Store → α → Prop} {Q : Store → β → Prop}

theorem pure (hm : m.Closed) {a : α} (h : P m.store a) : Finds m (Pure.pure a) P := by
  rintro _ _ ⟨⟩
  exact ⟨.refl m, hm, h⟩

theorem fail (hm : m.Closed) {fault : Fault} (h : fault.Plain) :
    Finds m (Run.fail fault line) P := by
  rintro _ _ ⟨⟩
  exact ⟨.refl m, hm, h⟩

theorem cutOff : Finds m Attempt.cutOff P := by
  rintro _ _ ⟨⟩

theorem bind {x : Run α} {f : α → Run β} (hx : Finds m x P)
    (hf : ∀ a m₁, m.Grown m₁ → m₁.Closed → P m₁.store a → Finds m₁ (f a) Q) :
    Finds m (x >>= f) Q := by
  have onward {a m₁ r m'} (hxm : x m = some (.ok a, m₁)) (hfm : f a m₁ = some (r, m')) :
      m.Grown m' ∧ m'.Closed ∧ Found Q m'.store r := by
    obtain ⟨hgrown, hclosed, ha⟩ := hx _ _ hxm
    obtain ⟨hgrown', hend⟩ := hf a m₁ hgrown hclosed ha _ _ hfm
    exact ⟨hgrown.trans hgrown', hend⟩
  intro r m' h
  cases r with
  | ok b =>
    obtain ⟨a, m₁, hxm, hfm⟩ := Attempt.bind_eq_ok_iff.1 h
    exact onward hxm hfm
  | error e =>
    rcases Attempt.bind_eq_error_iff.1 h with hxm | ⟨a, m₁, hxm, hfm⟩
    · exact hx _ _ hxm
    · exact onward hxm hfm

theorem imp {x : Run α} {Q : Store → α → Prop} (hx : Finds m x P)
    (h : ∀ a σ, m.store.Grown σ → P σ a → Q σ a) : Finds m x Q := by
  intro r m' hxm
  obtain ⟨hgrown, hclosed, hend⟩ := hx r m' hxm
  refine ⟨hgrown, hclosed, ?_⟩
  cases r with
  | ok a => exact h a _ hgrown.store hend
  | error e => exact hend

theorem located (hm : m.Closed) {x : Except Fault Value} (h : PlainResult x) :
    Finds m (Run.located line x) fun σ v => v.Closed σ := by
  cases x with
  | ok v => exact .pure hm (Value.Plain.closed h)
  | error fault => exact .fail hm h

theorem print (hm : m.Closed) (text : String) : Finds m (Run.print text) fun _ _ => True := by
  rintro _ _ ⟨⟩
  exact ⟨(Machine.Kept.print m text).machine_grown, hm.of_store_eq rfl rfl, trivial⟩

theorem define (hm : m.Closed) (hΓ : m.At i Γ) (hv : v.Closed m.store) :
    Finds m (Run.define name v) fun σ _ => σ.Knows i (Γ.add name) := by
  rintro _ _ ⟨⟩
  obtain ⟨rfl, hΓ⟩ := hΓ
  have hkept := Machine.Kept.define m name v
  exact ⟨hkept.machine_grown, hm.define (hv.grown hkept.scopes.grown), hΓ.define name v⟩

/-- The scope of the function has the name of the function as soon as the function exists. -/
theorem declare (hm : m.Closed) (hΓ : m.At i Γ) {parameters : List String}
    {body : List Stmt} (hbody : Stmt.AllOrderly body)
    (hwalk : (Stmt.walkAll (parameters :: Γ.add name) body).isSome = true) :
    Finds m (Run.declare name parameters body) fun σ _ => σ.Knows i (Γ.add name) := by
  rintro _ _ ⟨⟩
  obtain ⟨rfl, hΓ⟩ := hΓ
  have hfresh : Machine.Closed { m with callables := m.callables + 1 } := hm.of_store_eq rfl rfl
  exact ⟨(Machine.Kept.declare m name parameters body).machine_grown,
    hfresh.define ⟨hbody, Γ.add name, hΓ.define name _, hwalk⟩, hΓ.define name _⟩

theorem lookup (hm : m.Closed) (hΓ : m.At i Γ) (hx : Γ.has name = true) :
    Finds m (Run.lookup name line) fun σ v => v.Closed σ := by
  obtain ⟨rfl, hΓ⟩ := hΓ
  obtain ⟨j, hj⟩ := Option.isSome_iff_exists.1 (hΓ.finds name hx)
  obtain ⟨v, hv⟩ := Option.isSome_iff_exists.1 (Store.holderWithin_binds hj)
  have hlookup : m.lookup name = some v := by
    rw [Machine.lookup, Store.lookup, hj]
    exact hv
  intro r m' h
  rw [Run.lookup, Attempt.bind_apply, Attempt.gets_apply] at h
  simp only [hlookup] at h
  cases h
  exact ⟨.refl m, hm, hm.values hv⟩

theorem assign (hm : m.Closed) (hΓ : m.At i Γ) (hx : Γ.has name = true)
    (hv : v.Closed m.store) : Finds m (Run.assign name v line) fun _ _ => True := by
  obtain ⟨rfl, hΓ⟩ := hΓ
  obtain ⟨j, hj⟩ := Option.isSome_iff_exists.1 (hΓ.finds name hx)
  intro r m' h
  rw [Run.assign, Attempt.tryStep_apply] at h
  simp only [hj] at h
  cases h
  have hkept := Machine.Kept.assign hj v
  exact ⟨hkept.machine_grown, hm.define (hv.grown hkept.scopes.grown), trivial⟩

theorem inScope {x : Run α} (hx : Finds (m.enter bs) x P) : Finds m (Run.inScope bs x) P := by
  intro r m' h
  obtain ⟨m₁, hxm, rfl⟩ := Run.inScope_eq_some_iff.1 h
  obtain ⟨hgrown, hclosed, hend⟩ := hx r m₁ hxm
  have henv : m₁.leave.env = m.env := by
    rw [Machine.leave, hgrown.env, Machine.env_enter, Environment.pop_push]
  exact ⟨⟨henv, hgrown.builtins, (Store.grown_enter m bs).trans hgrown.store⟩,
    hclosed.of_store_eq rfl rfl, hend⟩

theorem inFrame {x : Run α} {i : ScopeId} (hx : Finds (m.calling i) x P) :
    Finds m (Run.inFrame i x) P := by
  intro r m' h
  obtain ⟨m₁, hxm, rfl⟩ := Run.inFrame_eq_some_iff.1 h
  obtain ⟨hgrown, hclosed, hend⟩ := hx r m₁ hxm
  exact ⟨⟨rfl, hgrown.builtins, hgrown.store⟩, hclosed.of_store_eq rfl rfl, hend⟩

theorem checkCount (hm : m.Closed) (name : String) (expected got : Nat) :
    Finds m (Run.checkCount name expected got line) fun _ _ => expected = got := by
  unfold Run.checkCount
  split
  · next h => exact .pure hm h
  · exact .fail hm (by rintro _ ⟨⟩)

theorem checkDepth (hm : m.Closed) : Finds m (Run.checkDepth line) fun _ _ => True := by
  intro r m' h
  rw [Run.checkDepth, Attempt.bind_apply, Attempt.gets_apply] at h
  dsimp only at h
  split at h <;> cases h
  · exact ⟨.refl m, hm, by rintro _ ⟨⟩⟩
  · exact ⟨.refl m, hm, trivial⟩

theorem callBuiltin (hm : m.Closed) (f : Native) (vs : List Value) :
    Finds m (Run.callBuiltin f vs line) fun σ v => v.Closed σ := by
  intro r m' h
  rw [Run.callBuiltin_apply] at h
  split at h
  · next b hb =>
    have hreply := hm.builtins b (List.mem_of_find?_eq_some hb) vs m.moment
    have htick : m.tick.Closed := hm.of_store_eq rfl rfl
    obtain ⟨hgrown, hend⟩ := located htick hreply r m' h
    exact ⟨(Machine.Kept.tick m).machine_grown.trans hgrown, hend⟩
  · cases h
    exact ⟨.refl m, hm, by rintro _ ⟨⟩⟩

end Finds

-- ---------------------------------------------------------------------------
-- Runs
-- ---------------------------------------------------------------------------

/-- Code that goes on in scope `i` knows the names in `Γ`; a value that is returned is closed. -/
def Completion.Leads (i : ScopeId) (Γ : Known) (σ : Store) : Completion → Prop
  | .normal => σ.Knows i Γ
  | .returned v => v.Closed σ

theorem Completion.Leads.value {c : Completion} (h : c.Leads i Γ σ) :
    c.value.Closed σ := by
  cases c with
  | normal => trivial
  | returned v => exact h

theorem Completion.Leads.outside {j : ScopeId} {c : Completion} (h : c.Leads j Γ' σ)
    (hΓ : σ.Knows i Γ) : c.Leads i Γ σ := by
  cases c with
  | normal => exact hΓ
  | returned v => exact h

/-- Runs with `n` units of fuel find all names, if the code is well scoped where it stands. -/
structure FindsAll (n : Nat) : Prop where
  eval : ∀ {m i Γ} {e : Expr}, m.Closed → m.At i Γ → e.wellScoped Γ = true →
    Finds m (eval n e) fun σ v => v.Closed σ
  evalAll : ∀ {m i Γ es}, m.Closed → m.At i Γ →
    Expr.allWellScoped Γ es = true →
    Finds m (evalAll n es) fun σ vs => ∀ v ∈ vs, v.Closed σ
  call : ∀ {m : Machine} {f vs} line, m.Closed → f.Closed m.store →
    (∀ v ∈ vs, v.Closed m.store) → Finds m (Lox.call n f vs line) fun σ v => v.Closed σ
  exec : ∀ {m i Γ Γ'} {s : Stmt}, m.Closed → m.At i Γ → s.Orderly →
    s.walk Γ = some Γ' → Finds m (exec n s) (Completion.Leads i Γ')
  execAll : ∀ {m i Γ Γ' ss}, m.Closed → m.At i Γ → Stmt.AllOrderly ss →
    Stmt.walkAll Γ ss = some Γ' → Finds m (execAll n ss) (Completion.Leads i Γ')

namespace FindsAll

variable {n : Nat} (ih : FindsAll n)

include ih

theorem eval_succ {e : Expr} (hm : m.Closed) (hΓ : m.At i Γ) (he : e.wellScoped Γ = true) :
    Finds m (Lox.eval (n + 1) e) fun σ v => v.Closed σ := by
  cases e with
  | literal l => exact .pure hm (Value.plain_ofLiteral l).closed
  | var name line => exact .lookup hm hΓ he
  | assign name value line =>
    simp only [Expr.wellScoped, Bool.and_eq_true] at he
    refine .bind (ih.eval hm hΓ he.2) fun v m₁ hgrown hm₁ hv => ?_
    refine .bind (.assign hm₁ (hΓ.grown hgrown) he.1 hv) fun _ m₂ hgrown' hm₂ _ => ?_
    exact .pure hm₂ (hv.grown hgrown'.store)
  | binary op left right line =>
    simp only [Expr.wellScoped, Bool.and_eq_true] at he
    refine .bind (ih.eval hm hΓ he.1) fun v m₁ hgrown hm₁ _ => ?_
    refine .bind (ih.eval hm₁ (hΓ.grown hgrown) he.2) fun w m₂ _ hm₂ _ => ?_
    exact .located hm₂ (op.plain_apply v w)
  | logical op left right line =>
    simp only [Expr.wellScoped, Bool.and_eq_true] at he
    refine .bind (ih.eval hm hΓ he.1) fun v m₁ hgrown hm₁ hv => ?_
    have hright := ih.eval hm₁ (hΓ.grown hgrown) he.2
    split
    · exact hright
    · exact .pure hm₁ hv
    · exact .pure hm₁ trivial
    · exact hright
  | unary op operand line =>
    refine .bind (ih.eval hm hΓ he) fun v m₁ _ hm₁ _ => ?_
    exact .located hm₁ (op.plain_apply v)
  | group inner => exact ih.eval hm hΓ he
  | call callee arguments line =>
    simp only [Expr.wellScoped, Bool.and_eq_true] at he
    refine .bind (ih.eval hm hΓ he.1) fun f m₁ hgrown hm₁ hf => ?_
    refine .bind (ih.evalAll hm₁ (hΓ.grown hgrown) he.2) fun vs m₂ hgrown' hm₂ hvs => ?_
    exact ih.call line hm₂ (hf.grown hgrown'.store) hvs

theorem evalAll_succ {es : List Expr} (hm : m.Closed) (hΓ : m.At i Γ)
    (hes : Expr.allWellScoped Γ es = true) :
    Finds m (Lox.evalAll (n + 1) es) fun σ vs => ∀ v ∈ vs, v.Closed σ := by
  cases es with
  | nil => exact .pure hm (by simp)
  | cons e es =>
    simp only [Expr.allWellScoped, Bool.and_eq_true] at hes
    refine .bind (ih.eval hm hΓ hes.1) fun v m₁ hgrown hm₁ hv => ?_
    refine .bind (ih.evalAll hm₁ (hΓ.grown hgrown) hes.2) fun vs m₂ hgrown' hm₂ hvs => ?_
    exact .pure hm₂ (List.forall_mem_cons.2 ⟨hv.grown hgrown'.store, hvs⟩)

/-- The body of a function runs in a new scope behind the one that the function carries. There are
as many arguments as parameters, so all parameters are bound. -/
theorem call_succ {f : Value} {vs : List Value} (hm : m.Closed) (hf : f.Closed m.store)
    (hvs : ∀ v ∈ vs, v.Closed m.store) :
    Finds m (Lox.call (n + 1) f vs line) fun σ v => v.Closed σ := by
  cases f with
  | function f =>
    refine .bind (.checkCount hm f.name f.arity vs.length) fun _ m₁ hgrown hm₁ hcount => ?_
    refine .bind (.checkDepth hm₁) fun _ m₂ hgrown' hm₂ _ => ?_
    have hσ : m.store.Grown m₂.store := hgrown.store.trans hgrown'.store
    obtain ⟨hbody, Γ, hΓ, hwalk⟩ := hf
    obtain ⟨Γ', hΓ'⟩ := Option.isSome_iff_exists.1 hwalk
    have hclosed : (m₂.calling f.scope).Closed := hm₂.of_store_eq rfl rfl
    have hcalling : (m₂.calling f.scope).At f.scope Γ := ⟨rfl, hΓ.grown hσ⟩
    have hbs : ∀ b ∈ f.parameters.zip vs, b.2.Closed m₂.store :=
      fun b hb => (hvs b.2 (List.of_mem_zip hb).2).grown hσ
    have hat := hcalling.enter (f.parameters.zip vs)
    rw [List.map_fst_zip (Nat.le_of_eq hcount)] at hat
    refine .inFrame (.inScope (.bind (ih.execAll (hclosed.enter hbs) hat hbody hΓ') ?_))
    exact fun c m₃ _ hm₃ hc => .pure hm₃ hc.value
  | native f =>
    refine .bind (.checkCount hm f.name f.arity vs.length) fun _ m₁ _ hm₁ _ => ?_
    exact .callBuiltin hm₁ f vs
  | number | string | boolean | nil => exact .fail hm (by rintro _ ⟨⟩)

theorem exec_succ {s : Stmt} (hm : m.Closed) (hΓ : m.At i Γ) (hs : s.Orderly)
    (hwalk : s.walk Γ = some Γ') : Finds m (Lox.exec (n + 1) s) (Completion.Leads i Γ') := by
  cases s with
  | expr e =>
    obtain ⟨he, rfl⟩ := Expr.walk_eq_some_iff.1 hwalk
    refine .bind (ih.eval hm hΓ he) fun _ m₁ hgrown hm₁ _ => ?_
    exact .pure hm₁ (hΓ.grown hgrown).knows
  | print e =>
    obtain ⟨he, rfl⟩ := Expr.walk_eq_some_iff.1 hwalk
    refine .bind (ih.eval hm hΓ he) fun v m₁ hgrown hm₁ _ => ?_
    refine .bind (.print hm₁ v.text) fun _ m₂ hgrown' hm₂ _ => ?_
    exact .pure hm₂ (hΓ.grown (hgrown.trans hgrown')).knows
  | var name e =>
    obtain ⟨Γ₁, hinitial, rfl⟩ := Option.map_eq_some_iff.1 hwalk
    obtain ⟨he, rfl⟩ := Expr.walk_eq_some_iff.1 hinitial
    refine .bind (ih.eval hm hΓ he) fun v m₁ hgrown hm₁ hv => ?_
    refine .bind (.define hm₁ (hΓ.grown hgrown) hv) fun _ m₂ _ hm₂ hΓ₂ => ?_
    exact .pure hm₂ hΓ₂
  | block body =>
    obtain ⟨Γ₁, hbody, rfl⟩ := Option.map_eq_some_iff.1 hwalk
    have hinner := ih.execAll (hm.enter (by simp)) (hΓ.enter []) hs hbody
    exact (Finds.inScope hinner).imp fun c σ hgrown hc => hc.outside (hΓ.knows.grown hgrown)
  | branch condition yes no line =>
    obtain ⟨hyes, hdeclared, hno⟩ := hs
    obtain ⟨Γ₁, hwcondition, hrest⟩ := Option.bind_eq_some_iff.1 hwalk
    obtain ⟨he, rfl⟩ := Expr.walk_eq_some_iff.1 hwcondition
    obtain ⟨Γ₁, hwyes, hwno⟩ := Option.bind_eq_some_iff.1 hrest
    obtain rfl := Stmt.walk_of_declared hdeclared hwyes
    refine .bind (ih.eval hm hΓ he) fun v m₁ hgrown hm₁ _ => ?_
    have hΓ₁ := hΓ.grown hgrown
    cases no with
    | none =>
      cases hwno
      split
      · exact ih.exec hm₁ hΓ₁ hyes hwyes
      · exact .pure hm₁ hΓ₁.knows
    | some no =>
      obtain rfl := Stmt.walk_of_declared hno.2 hwno
      split
      · exact ih.exec hm₁ hΓ₁ hyes hwyes
      · exact ih.exec hm₁ hΓ₁ hno.1 hwno
  | loop condition body line =>
    obtain ⟨Γ₁, hwcondition, hbody⟩ := Option.bind_eq_some_iff.1 hwalk
    obtain ⟨he, rfl⟩ := Expr.walk_eq_some_iff.1 hwcondition
    obtain rfl := Stmt.walk_of_declared hs.2 hbody
    refine .bind (ih.eval hm hΓ he) fun v m₁ hgrown hm₁ _ => ?_
    have hΓ₁ := hΓ.grown hgrown
    split
    · refine .bind (ih.exec hm₁ hΓ₁ hs.1 hbody) fun c m₂ hgrown' hm₂ hc => ?_
      cases c with
      | normal => exact ih.exec hm₂ (hΓ₁.after hgrown' hc) hs hwalk
      | returned v => exact .pure hm₂ hc
    · exact .pure hm₁ hΓ₁.knows
  | func name parameters body line =>
    obtain ⟨Γ₁, hbody, rfl⟩ := Option.map_eq_some_iff.1 hwalk
    have hwalk := Option.isSome_iff_exists.2 ⟨Γ₁, hbody⟩
    refine .bind (.declare hm hΓ hs hwalk) fun _ m₁ _ hm₁ hΓ₁ => ?_
    exact .pure hm₁ hΓ₁
  | ret e =>
    obtain ⟨he, rfl⟩ := Expr.walk_eq_some_iff.1 hwalk
    exact .bind (ih.eval hm hΓ he) fun v m₁ _ hm₁ hv => .pure hm₁ hv

theorem execAll_succ {ss : List Stmt} (hm : m.Closed) (hΓ : m.At i Γ)
    (hss : Stmt.AllOrderly ss) (hwalk : Stmt.walkAll Γ ss = some Γ') :
    Finds m (Lox.execAll (n + 1) ss) (Completion.Leads i Γ') := by
  cases ss with
  | nil =>
    cases hwalk
    exact .pure hm hΓ.knows
  | cons s ss =>
    obtain ⟨Γ₁, hs, hrest⟩ := Option.bind_eq_some_iff.1 hwalk
    refine .bind (ih.exec hm hΓ hss.1 hs) fun c m₁ hgrown hm₁ hc => ?_
    cases c with
    | normal => exact ih.execAll hm₁ (hΓ.after hgrown hc) hss.2 hrest
    | returned v => exact .pure hm₁ hc

end FindsAll

theorem findsAll (n : Nat) : FindsAll n := by
  induction n with
  | zero => constructor <;> intros <;> exact .cutOff
  | succ n ih =>
    exact ⟨ih.eval_succ, ih.evalAll_succ, fun _ => ih.call_succ, ih.exec_succ, ih.execAll_succ⟩

-- ---------------------------------------------------------------------------
-- Programs
-- ---------------------------------------------------------------------------

namespace Machine

theorem closed_fresh (callLimit : Nat) (readings : Readings) :
    (fresh callLimit readings).Closed where
  values h := by
    rcases Store.eq_or_get?_of_define h with rfl | h
    · trivial
    · have hempty : Store.empty.get? _ _ = some _ := Store.get?_of_allocate h
      simp [Store.get?, Store.empty] at hempty
  builtins b hb vs moment := by
    obtain rfl : b = .clockOf readings := List.mem_singleton.1 hb
    rcases Builtin.clockOf_replies readings moment with ⟨now, h⟩ | ⟨reason, h⟩
    · rw [h]
      rintro ⟨⟩
    · rw [h]
      rintro _ ⟨⟩

theorem at_fresh (callLimit : Nat) (readings : Readings) :
    (fresh callLimit readings).At 0 [["clock"]] where
  current := rfl
  knows := .of_binds rfl fun x hx => by
    obtain rfl := List.mem_singleton.1 hx
    rfl

end Machine

theorem lexical_scoping_sound (callLimit : Nat) (readings : Readings) (ts : List Token)
    (h : WellScoped ["clock"] (parse ts).statements) (n : Nat) (e : RuntimeError) (m' : Machine)
    (hrun : interpret n (parse ts).statements (.fresh callLimit readings) =
      some (.error e, m')) :
    ∀ name, e.fault ≠ .undefinedVariable name := by
  obtain ⟨Γ, hwalk⟩ := Option.isSome_iff_exists.1 h
  have hfinds := (findsAll n).execAll (Machine.closed_fresh callLimit readings)
    (Machine.at_fresh callLimit readings) (orderly_of_parse ts) hwalk
  rcases Attempt.bind_eq_error_iff.1 hrun with hrun | ⟨_, _, -, hend⟩
  · exact (hfinds _ _ hrun).2.2
  · cases hend

/-- In `fun f(x) { fun g() { return x; } return g; } f(nil)()();` the inner function is called when
the outer one has returned, and what fails is the call of its value. -/
theorem escaped_closure_finds_parameter :
    let token (k : Kind) (lexeme : String) : Token := ⟨k, lexeme, 1, none⟩
    let name := token .identifier
    let opening := token .leftParen "("
    let closing := token .rightParen ")"
    let ts : List Token := [
      token .kwFun "fun", name "f", opening, name "x", closing, token .leftBrace "\x7b",
      token .kwFun "fun", name "g", opening, closing, token .leftBrace "\x7b",
      token .kwReturn "return", name "x", token .semicolon ";", token .rightBrace "\x7d",
      token .kwReturn "return", name "g", token .semicolon ";", token .rightBrace "\x7d",
      name "f", opening, token .kwNil "nil", closing, opening, closing, opening, closing,
      token .semicolon ";"]
    WellScoped ["clock"] (parse ts).statements ∧
      ∃ m', interpret 20 (parse ts).statements (.fresh 2 (.constant 0)) =
          some (.error ⟨.notCallable "nil", some 1⟩, m') ∧
        ∀ name, Fault.notCallable "nil" ≠ .undefinedVariable name := by
  intro token name opening closing ts
  refine ⟨?walk, ?m, ?run, lexical_scoping_sound 2 (.constant 0) ts ?walk 20 _ _ ?run⟩
  case walk => rfl
  case run => rfl

end Lox
