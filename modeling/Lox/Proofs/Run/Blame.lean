-- SUMMARY: Every error of a run is that of one node, and is handed on as it is.
import Lox.Proofs.Attempt
import Lox.Proofs.Run.Phase

/-!
## Blame

A node raises an error if its parts have values and its own operation fails: a name is not there, an
operator does not take its operands, a value cannot be called. The error has the line of this node.
All the code around it hands the error on as it is, through as many calls as there are, so a run
fails exactly if one of its phases raises an error, and with this error (`Phase.fails_iff`).
-/

namespace Lox

open Attempt

variable {α β : Type} {m m₁ : Machine} {e : RuntimeError} {line : Nat}

/-- The run ends with the error. -/
def Run.Fails (x : Run α) (m : Machine) (e : RuntimeError) : Prop :=
  ∃ m', x m = some (.error e, m')

/-- The value cannot be called with the arguments, whatever its body would do. -/
inductive Machine.Refuses (m : Machine) (vs : List Value) : Value → Fault → Prop where
  | notCallable {v : Value} (h : v.type ≠ .function) (h' : v.type ≠ .native) :
      Refuses m vs v (.notCallable v.type.name)
  | count {f : Function} (h : f.arity ≠ vs.length) :
      Refuses m vs (.function f) (.argumentCount f.name f.arity vs.length)
  | depth {f : Function} (h : f.arity = vs.length) (h' : m.callLimit ≤ m.callDepth) :
      Refuses m vs (.function f) (.recursionLimit m.callLimit)
  | nativeCount {f : Native} (h : f.arity ≠ vs.length) :
      Refuses m vs (.native f) (.argumentCount f.name f.arity vs.length)
  | missing {f : Native} (h : f.arity = vs.length)
      (h' : m.builtins.find? (fun b => b.name == f.name) = none) :
      Refuses m vs (.native f) (.notCallable ValueType.native.name)
  | failure {f : Native} {b : Builtin} {fault : Fault} (h : f.arity = vs.length)
      (h' : m.builtins.find? (fun b => b.name == f.name) = some b)
      (h'' : b.run vs m.moment = .error fault) : Refuses m vs (.native f) fault

/-- The phase evaluates `node`, and the operation of `node` itself fails with `fault`. -/
inductive Phase.Raises : Phase → Expr → Fault → Prop where
  | var {n name line m} (h : m.lookup name = none) :
      Raises ⟨n + 1, .eval (.var name line), m⟩ (.var name line) (.undefinedVariable name)
  | assign {n name value line m v m₁} (h : eval n value m = some (.ok v, m₁))
      (h' : m₁.store.holder? name m₁.env.current = none) :
      Raises ⟨n + 1, .eval (.assign name value line), m⟩ (.assign name value line)
        (.undefinedVariable name)
  | binary {n op left right line m v m₁ w m₂ fault} (h : eval n left m = some (.ok v, m₁))
      (h' : eval n right m₁ = some (.ok w, m₂)) (hop : op.apply v w = .error fault) :
      Raises ⟨n + 1, .eval (.binary op left right line), m⟩ (.binary op left right line) fault
  | unary {n op operand line m v m₁ fault} (h : eval n operand m = some (.ok v, m₁))
      (hop : op.apply v = .error fault) :
      Raises ⟨n + 1, .eval (.unary op operand line), m⟩ (.unary op operand line) fault
  | call {n callee es line m f m₁ vs m₂ fault} (h : eval n callee m = some (.ok f, m₁))
      (h' : evalAll n es m₁ = some (.ok vs, m₂)) (hf : m₂.Refuses vs f fault) :
      Raises ⟨n + 1, .eval (.call callee es line), m⟩ (.call callee es line) fault

/-- The run of the phase ends with the error. -/
def Phase.Fails (c : Phase) (e : RuntimeError) : Prop :=
  match c.code with
  | .eval e' => Run.Fails (eval c.fuel e') c.machine e
  | .evalAll es => Run.Fails (evalAll c.fuel es) c.machine e
  | .call f vs line => Run.Fails (call c.fuel f vs line) c.machine e
  | .exec s => Run.Fails (exec c.fuel s) c.machine e
  | .execAll ss => Run.Fails (execAll c.fuel ss) c.machine e

-- ---------------------------------------------------------------------------
-- Steps
-- ---------------------------------------------------------------------------

namespace Run

theorem not_fails_pure (a : α) : ¬ Fails (pure a) m e := by
  rintro ⟨_, ⟨⟩⟩

theorem not_fails_cutOff : ¬ Fails (cutOff : Run α) m e := by
  rintro ⟨_, ⟨⟩⟩

theorem fails_bind_iff {x : Run α} {f : α → Run β} :
    Fails (x >>= f) m e ↔ Fails x m e ∨ ∃ a m₁, x m = some (.ok a, m₁) ∧ Fails (f a) m₁ e := by
  constructor
  · rintro ⟨m', h⟩
    rcases bind_eq_error_iff.1 h with hx | ⟨a, m₁, hx, hf⟩
    · exact .inl ⟨m', hx⟩
    · exact .inr ⟨a, m₁, hx, m', hf⟩
  · rintro (⟨m', hx⟩ | ⟨a, m₁, hx, m', hf⟩)
    · exact ⟨m', bind_eq_error_iff.2 (.inl hx)⟩
    · exact ⟨m', bind_eq_error_iff.2 (.inr ⟨a, m₁, hx, hf⟩)⟩

/-- What fails first fails the whole. -/
theorem Fails.bind {x : Run α} (h : Fails x m e) (f : α → Run β) : Fails (x >>= f) m e :=
  fails_bind_iff.2 (.inl h)

theorem Fails.after {x : Run α} {f : α → Run β} {a : α} (h : x m = some (.ok a, m₁))
    (hf : Fails (f a) m₁ e) : Fails (x >>= f) m e :=
  fails_bind_iff.2 (.inr ⟨a, m₁, h, hf⟩)

/-- A run whose last step does not fail. -/
theorem fails_map_iff {x : Run α} {f : α → β} :
    Fails (x >>= fun a => pure (f a)) m e ↔ Fails x m e := by
  rw [fails_bind_iff]
  exact or_iff_left fun ⟨a, m₁, _, h⟩ => not_fails_pure (f a) h

theorem fails_located_iff {x : Except Fault α} :
    Fails (located line x) m e ↔ ∃ fault, x = .error fault ∧ e = ⟨fault, some line⟩ := by
  cases x with
  | ok a => exact ⟨fun h => absurd h (not_fails_pure a), by rintro ⟨_, ⟨⟩, -⟩⟩
  | error fault =>
    constructor
    · rintro ⟨m', ⟨⟩⟩
      exact ⟨fault, rfl, rfl⟩
    · rintro ⟨_, ⟨⟩, rfl⟩
      exact ⟨m, rfl⟩

theorem fails_inScope_iff {x : Run α} {bs : List (String × Value)} :
    Fails (inScope bs x) m e ↔ Fails x (m.enter bs) e := by
  simp only [Fails, inScope_eq_some_iff]
  exact ⟨fun ⟨_, m₁, h, _⟩ => ⟨m₁, h⟩, fun ⟨m₁, h⟩ => ⟨_, m₁, h, rfl⟩⟩

theorem fails_inFrame_iff {x : Run α} {i : ScopeId} :
    Fails (inFrame i x) m e ↔ Fails x (m.calling i) e := by
  simp only [Fails, inFrame_eq_some_iff]
  exact ⟨fun ⟨_, m₁, h, _⟩ => ⟨m₁, h⟩, fun ⟨m₁, h⟩ => ⟨_, m₁, h, rfl⟩⟩

theorem fails_lookup_iff {name : String} :
    Fails (lookup name line) m e ↔
      m.lookup name = none ∧ e = ⟨.undefinedVariable name, some line⟩ := by
  rw [lookup, Fails]
  simp only [bind_apply, gets_apply]
  cases m.lookup name with
  | none => simp [fail, eq_comm]
  | some v => simp

theorem fails_assign_iff {name : String} {v : Value} :
    Fails (assign name v line) m e ↔
      m.store.holder? name m.env.current = none ∧ e = ⟨.undefinedVariable name, some line⟩ := by
  rw [assign, Fails]
  simp only [tryStep_apply]
  cases m.store.holder? name m.env.current with
  | none => simp [eq_comm]
  | some i => simp

theorem not_fails_print (text : String) : ¬ Fails (print text) m e := by
  rintro ⟨_, ⟨⟩⟩

theorem not_fails_define (name : String) (v : Value) : ¬ Fails (define name v) m e := by
  rintro ⟨_, ⟨⟩⟩

theorem not_fails_declare (name : String) (parameters : List String) (body : List Stmt) :
    ¬ Fails (declare name parameters body) m e := by
  rintro ⟨_, ⟨⟩⟩

theorem fails_congr {x y : Run α} (h : x m = y m) : Fails x m e ↔ Fails y m e := by
  rw [Fails, Fails, h]

theorem fails_fail_iff {fault : Fault} :
    Fails (fail fault line : Run α) m e ↔ e = ⟨fault, some line⟩ := by
  constructor
  · rintro ⟨_, ⟨⟩⟩
    rfl
  · rintro rfl
    exact ⟨m, rfl⟩

theorem checkCount_bind_of_eq {name : String} {expected got : Nat} (h : expected = got)
    (x : Run α) : (do checkCount name expected got line; x : Run α) m = x m := by
  rw [checkCount, if_pos h]
  rfl

theorem checkCount_bind_of_ne {name : String} {expected got : Nat} (h : expected ≠ got)
    (x : Run α) : (do checkCount name expected got line; x : Run α) m =
      fail (.argumentCount name expected got) line m := by
  rw [checkCount, if_neg h]
  rfl

end Run

-- ---------------------------------------------------------------------------
-- Calls
-- ---------------------------------------------------------------------------

variable {n : Nat} {vs : List Value}

theorem Machine.Refuses.fails {v : Value} {fault : Fault} (h : m.Refuses vs v fault) :
    Run.Fails (call (n + 1) v vs line) m ⟨fault, some line⟩ := by
  cases h with
  | notCallable h h' =>
    cases v with
    | function => exact absurd rfl h
    | native => exact absurd rfl h'
    | number | string | boolean | nil => exact Run.fails_fail_iff.2 rfl
  | count h | nativeCount h =>
    exact (Run.fails_congr (Run.checkCount_bind_of_ne h _)).2 (Run.fails_fail_iff.2 rfl)
  | depth h h' =>
    exact (Run.fails_congr (Run.checkCount_bind_of_eq h _)).2 ⟨m, Run.checkDepth_full _ h'⟩
  | missing h h' =>
    refine (Run.fails_congr (Run.checkCount_bind_of_eq h _)).2 ⟨m, ?_⟩
    rw [Run.callBuiltin_apply, h']
    rfl
  | failure h h' h'' =>
    refine (Run.fails_congr (Run.checkCount_bind_of_eq h _)).2 ⟨m.tick, ?_⟩
    rw [Run.callBuiltin_apply, h']
    dsimp only
    rw [h'']
    rfl

/-- What the body of a function does in a call that is not refused. -/
theorem Run.fails_body_iff {f : Function} (hcount : f.arity = vs.length)
    (hdepth : m.callDepth < m.callLimit) :
    Run.Fails (call (n + 1) (.function f) vs line) m e ↔
      Run.Fails (execAll n f.body) ((m.calling f.scope).enter (f.parameters.zip vs)) e := by
  rw [call, fails_congr (checkCount_bind_of_eq hcount _), fails_congr (checkDepth_room _ hdepth),
    fails_inFrame_iff, fails_inScope_iff, fails_map_iff]

/-- A call that fails is refused, or the body of the function fails. -/
theorem Run.Fails.of_call {v : Value} (h : Run.Fails (call (n + 1) v vs line) m e) :
    (∃ fault, m.Refuses vs v fault ∧ e = ⟨fault, some line⟩) ∨
      ∃ f, v = .function f ∧ f.arity = vs.length ∧ m.callDepth < m.callLimit ∧
        Run.Fails (execAll n f.body) ((m.calling f.scope).enter (f.parameters.zip vs)) e := by
  cases v with
  | function f =>
    by_cases hcount : f.arity = vs.length
    · by_cases hdepth : m.callDepth < m.callLimit
      · exact .inr ⟨f, rfl, hcount, hdepth, (fails_body_iff hcount hdepth).1 h⟩
      · obtain ⟨m', h⟩ := h
        have hfull := Nat.not_lt.1 hdepth
        rw [call, checkCount_bind_of_eq hcount, checkDepth_full _ hfull] at h
        cases h
        exact .inl ⟨_, .depth hcount hfull, rfl⟩
    · rw [call, fails_congr (checkCount_bind_of_ne hcount _)] at h
      exact .inl ⟨_, .count hcount, fails_fail_iff.1 h⟩
  | native f =>
    left
    by_cases hcount : f.arity = vs.length
    · obtain ⟨m', h⟩ := h
      rw [call, checkCount_bind_of_eq hcount, callBuiltin_apply] at h
      split at h
      · next b hb =>
        obtain ⟨fault, hrun, rfl⟩ := fails_located_iff.1 ⟨m', h⟩
        exact ⟨fault, .failure hcount hb hrun, rfl⟩
      · next hb =>
        exact ⟨_, .missing hcount hb, fails_fail_iff.1 ⟨m', h⟩⟩
    · rw [call, fails_congr (checkCount_bind_of_ne hcount _)] at h
      exact ⟨_, .nativeCount hcount, fails_fail_iff.1 h⟩
  | number | string | boolean | nil =>
    exact .inl ⟨_, .notCallable nofun nofun, fails_fail_iff.1 h⟩

-- ---------------------------------------------------------------------------
-- Phases
-- ---------------------------------------------------------------------------

namespace Phase

variable {j k : Nat} {c c' : Phase}

/-- A part that fails fails the whole, with the same error. -/
theorem fails_of_first {code code' : Code} (hfirst : code.first? = some code')
    (h : Fails ⟨n, code', m⟩ e) : Fails ⟨n + 1, code, m⟩ e := by
  cases code with
  | eval e' =>
    cases e' with
    | literal | var => cases hfirst
    | assign | binary | logical | unary | call =>
      cases hfirst
      exact Run.Fails.bind h _
    | group =>
      cases hfirst
      exact h
  | evalAll es =>
    cases es with
    | nil => cases hfirst
    | cons =>
      cases hfirst
      exact Run.Fails.bind h _
  | call => cases hfirst
  | exec s =>
    cases s with
    | block | func => cases hfirst
    | expr | print | var | branch | loop | ret =>
      cases hfirst
      exact Run.Fails.bind h _
  | execAll ss =>
    cases ss with
    | nil => cases hfirst
    | cons =>
      cases hfirst
      exact Run.Fails.bind h _

theorem Part.fails (hpart : Part j c c') (h : c'.Fails e) : c.Fails e := by
  cases hpart with
  | first hfirst => exact fails_of_first hfirst h
  | right hl => exact .after hl (.bind h _)
  | @logicalRight n op _ _ _ _ v _ hl hop =>
    refine .after hl ?_
    cases op <;> cases hv : v.isNil <;> simp only [hv] at hop ⊢
    · exact h
    · simp at hop
    · simp at hop
    · exact h
  | arguments hf => exact .after hf (.bind h _)
  | call hf hes => exact .after hf (.after hes h)
  | tail he => exact .after he (.bind h _)
  | body hcount hdepth => exact (Run.fails_body_iff hcount hdepth).2 h
  | block => exact Run.fails_inScope_iff.2 h
  | yes hc hv =>
    refine .after hc ?_
    rw [if_pos hv]
    exact h
  | no hc hv =>
    refine .after hc ?_
    rw [if_neg (Bool.eq_false_iff.1 hv)]
    exact h
  | turn hc hv =>
    refine .after hc ?_
    rw [if_pos hv]
    exact .bind h _
  | again hc hv hbody =>
    refine .after hc ?_
    rw [if_pos hv]
    exact .after hbody h
  | rest hs => exact .after hs h

theorem Contains.trans {c'' : Phase} (h : Contains j c c') (h' : Contains k c' c'') :
    Contains (j + k) c c'' := by
  induction h with
  | self => rwa [Nat.zero_add]
  | part hpart _ ih =>
    rw [Nat.add_assoc]
    exact .part hpart (ih h')

theorem Contains.fails (h : Contains k c c') (hfails : c'.Fails e) : c.Fails e := by
  induction h with
  | self => exact hfails
  | part hpart _ ih => exact hpart.fails (ih hfails)

theorem Raises.code {node : Expr} {fault : Fault} (h : c.Raises node fault) :
    c.code = .eval node := by
  cases h <;> rfl

/-- A phase that raises an error fails with it, on the line of its node. -/
theorem Raises.fails {node : Expr} {fault : Fault} (h : c.Raises node fault) :
    c.Fails ⟨fault, some node.line⟩ := by
  cases h with
  | var h => exact Run.fails_lookup_iff.2 ⟨h, rfl⟩
  | assign h h' => exact .after h (.bind (Run.fails_assign_iff.2 ⟨h', rfl⟩) _)
  | binary h h' hop => exact .after h (.after h' (Run.fails_located_iff.2 ⟨_, hop, rfl⟩))
  | unary h hop => exact .after h (Run.fails_located_iff.2 ⟨_, hop, rfl⟩)
  | @call n _ _ _ _ _ _ _ _ _ h h' hf =>
    cases n with
    | zero => cases h
    | succ n => exact .after h (.after h' hf.fails)

/-- What a phase runs that stands in a tree: calls of values are none of that. -/
def InTree (c : Phase) : Prop :=
  ∀ f vs line, c.code ≠ .call f vs line

/-- A smaller phase in `c` fails, or `c` itself raises the error. -/
inductive Descends (c : Phase) (e : RuntimeError) : Prop where
  | raises {node fault} (h : c.Raises node fault) (he : e = ⟨fault, some node.line⟩)
  | within {i c'} (h : Contains i c c') (hfuel : c'.fuel < c.fuel) (htree : c'.InTree)
      (hfails : c'.Fails e)

theorem Descends.part {c' : Phase} (h : Part j c c') (hfuel : c'.fuel < c.fuel)
    (htree : c'.InTree) (hfails : c'.Fails e) : c.Descends e :=
  .within (.part h (.self c')) hfuel htree hfails

theorem descends_of_eval {e' : Expr} (h : Fails ⟨n + 1, .eval e', m⟩ e) :
    Descends ⟨n + 1, .eval e', m⟩ e := by
  have hfirst {e'' : Expr} (hfirst : Code.first? (.eval e') = some (.eval e''))
      (hfails : Run.Fails (eval n e'') m e) : Descends ⟨n + 1, .eval e', m⟩ e :=
    .part (.first hfirst) (Nat.lt_succ_self n) nofun hfails
  change Run.Fails (eval (n + 1) e') m e at h
  cases e' with
  | literal l => exact absurd h (Run.not_fails_pure _)
  | var name line =>
    obtain ⟨hname, rfl⟩ := Run.fails_lookup_iff.1 h
    exact .raises (.var hname) rfl
  | assign name value line =>
    rcases Run.fails_bind_iff.1 h with h | ⟨v, m₁, hv, h⟩
    · exact hfirst rfl h
    · obtain ⟨hname, rfl⟩ := Run.fails_assign_iff.1 (Run.fails_map_iff.1 h)
      exact .raises (.assign hv hname) rfl
  | binary op left right line =>
    rcases Run.fails_bind_iff.1 h with h | ⟨v, m₁, hv, h⟩
    · exact hfirst rfl h
    · rcases Run.fails_bind_iff.1 h with h | ⟨w, m₂, hw, h⟩
      · exact .part (.right hv) (Nat.lt_succ_self n) nofun h
      · obtain ⟨fault, hop, rfl⟩ := Run.fails_located_iff.1 h
        exact .raises (.binary hv hw hop) rfl
  | logical op left right line =>
    rcases Run.fails_bind_iff.1 h with h | ⟨v, m₁, hv, h⟩
    · exact hfirst rfl h
    · have hright (hop : v.isNil = true ↔ op = .or) (h : Run.Fails (eval n right) m₁ e) :
          Descends ⟨n + 1, .eval (.logical op left right line), m⟩ e :=
        .part (.logicalRight hv hop) (Nat.lt_succ_self n) nofun h
      cases op <;> cases hnil : v.isNil <;> simp only [hnil] at h
      · exact hright (by simp [hnil]) h
      · exact absurd h (Run.not_fails_pure _)
      · exact absurd h (Run.not_fails_pure _)
      · exact hright (by simp [hnil]) h
  | unary op operand line =>
    rcases Run.fails_bind_iff.1 h with h | ⟨v, m₁, hv, h⟩
    · exact hfirst rfl h
    · obtain ⟨fault, hop, rfl⟩ := Run.fails_located_iff.1 h
      exact .raises (.unary hv hop) rfl
  | group inner => exact hfirst rfl h
  | call callee es line =>
    rcases Run.fails_bind_iff.1 h with h | ⟨f, m₁, hf, h⟩
    · exact hfirst rfl h
    · rcases Run.fails_bind_iff.1 h with h | ⟨vs, m₂, hvs, h⟩
      · exact .part (.arguments hf) (Nat.lt_succ_self n) nofun h
      · cases n with
        | zero => cases hf
        | succ n =>
          rcases h.of_call with ⟨fault, hrefuses, rfl⟩ | ⟨g, rfl, hcount, hdepth, h⟩
          · exact .raises (.call hf hvs hrefuses) rfl
          · exact .within (.part (.call hf hvs) (.part (.body hcount hdepth) (.self _)))
              (Nat.lt_succ_of_lt (Nat.lt_succ_self n)) nofun h

theorem descends_of_evalAll {es : List Expr} (h : Fails ⟨n + 1, .evalAll es, m⟩ e) :
    Descends ⟨n + 1, .evalAll es, m⟩ e := by
  change Run.Fails (evalAll (n + 1) es) m e at h
  cases es with
  | nil => exact absurd h (Run.not_fails_pure _)
  | cons e' es =>
    rcases Run.fails_bind_iff.1 h with h | ⟨v, m₁, hv, h⟩
    · exact .part (.first rfl) (Nat.lt_succ_self n) nofun h
    · exact .part (.tail hv) (Nat.lt_succ_self n) nofun (Run.fails_map_iff.1 h)

theorem descends_of_exec {s : Stmt} (h : Fails ⟨n + 1, .exec s, m⟩ e) :
    Descends ⟨n + 1, .exec s, m⟩ e := by
  have hfirst {e' : Expr} (hfirst : Code.first? (.exec s) = some (.eval e'))
      (hfails : Run.Fails (eval n e') m e) : Descends ⟨n + 1, .exec s, m⟩ e :=
    .part (.first hfirst) (Nat.lt_succ_self n) nofun hfails
  change Run.Fails (exec (n + 1) s) m e at h
  cases s with
  | expr e' | ret e' => exact hfirst rfl (Run.fails_map_iff.1 h)
  | print e' =>
    rcases Run.fails_bind_iff.1 h with h | ⟨v, m₁, hv, h⟩
    · exact hfirst rfl h
    · exact absurd (Run.fails_map_iff.1 h) (Run.not_fails_print _)
  | var name e' =>
    rcases Run.fails_bind_iff.1 h with h | ⟨v, m₁, hv, h⟩
    · exact hfirst rfl h
    · exact absurd (Run.fails_map_iff.1 h) (Run.not_fails_define _ _)
  | func name parameters body =>
    exact absurd (Run.fails_map_iff.1 h) (Run.not_fails_declare _ _ _)
  | block body => exact .part .block (Nat.lt_succ_self n) nofun (Run.fails_inScope_iff.1 h)
  | branch condition yes no line =>
    rcases Run.fails_bind_iff.1 h with h | ⟨v, m₁, hv, h⟩
    · exact hfirst rfl h
    · split at h
      · next htrue => exact .part (.yes hv htrue) (Nat.lt_succ_self n) nofun h
      · next hfalse =>
        cases no with
        | none => exact absurd h (Run.not_fails_pure _)
        | some no =>
          exact .part (.no hv (Bool.eq_false_iff.2 hfalse)) (Nat.lt_succ_self n) nofun h
  | loop condition body line =>
    rcases Run.fails_bind_iff.1 h with h | ⟨v, m₁, hv, h⟩
    · exact hfirst rfl h
    · split at h
      · next htrue =>
        rcases Run.fails_bind_iff.1 h with h | ⟨completion, m₂, hbody, h⟩
        · exact .part (.turn hv htrue) (Nat.lt_succ_self n) nofun h
        · cases completion with
          | normal => exact .part (.again hv htrue hbody) (Nat.lt_succ_self n) nofun h
          | returned => exact absurd h (Run.not_fails_pure _)
      · exact absurd h (Run.not_fails_pure _)

theorem descends_of_execAll {ss : List Stmt} (h : Fails ⟨n + 1, .execAll ss, m⟩ e) :
    Descends ⟨n + 1, .execAll ss, m⟩ e := by
  change Run.Fails (execAll (n + 1) ss) m e at h
  cases ss with
  | nil => exact absurd h (Run.not_fails_pure _)
  | cons s ss =>
    rcases Run.fails_bind_iff.1 h with h | ⟨completion, m₁, hs, h⟩
    · exact .part (.first rfl) (Nat.lt_succ_self n) nofun h
    · cases completion with
      | normal => exact .part (.rest hs) (Nat.lt_succ_self n) nofun h
      | returned => exact absurd h (Run.not_fails_pure _)

theorem Fails.descends (h : c.Fails e) (htree : c.InTree) : c.Descends e := by
  obtain ⟨fuel, code, m⟩ := c
  cases fuel with
  | zero =>
    cases code with
    | call f vs line => exact absurd rfl (htree f vs line)
    | eval | evalAll | exec | execAll => exact absurd h Run.not_fails_cutOff
  | succ n =>
    cases code with
    | call f vs line => exact absurd rfl (htree f vs line)
    | eval => exact descends_of_eval h
    | evalAll => exact descends_of_evalAll h
    | exec => exact descends_of_exec h
    | execAll => exact descends_of_execAll h

/-- Code fails exactly if a node raises an error at some time of the run, and with this error. -/
theorem fails_iff (htree : c.InTree) : c.Fails e ↔
    ∃ k c' node fault, Contains k c c' ∧ c'.Raises node fault ∧ e = ⟨fault, some node.line⟩ := by
  constructor
  · intro h
    induction hn : c.fuel using Nat.strongRecOn generalizing c with
    | ind n ih =>
      cases h.descends htree with
      | raises h he => exact ⟨0, c, _, _, .self c, h, he⟩
      | within h hfuel htree' hfails =>
        obtain ⟨k, c'', node, fault, h', hraises, he⟩ := ih _ (hn ▸ hfuel) htree' hfails rfl
        exact ⟨_, c'', node, fault, h.trans h', hraises, he⟩
  · rintro ⟨k, c', node, fault, h, hraises, rfl⟩
    exact h.fails hraises.fails

end Phase

end Lox
