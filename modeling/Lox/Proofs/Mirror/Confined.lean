-- SUMMARY: A call neither changes nor depends on anything that it cannot reach.
import Lox.Proofs.Mirror.WellFormed
import Lox.Proofs.Run.Origin

/-!
## What a call can reach

From values one reaches the scopes that the functions among them carry, the parents of those scopes,
and the scopes that the functions bound in them carry. A call of a function changes no other scope
that was there before it. On a machine that has the same scopes there and may differ in all others,
also in those that are open at the call, it prints the same and ends the same way (`call_confined`).
For the call goes alongside itself, where the scopes that it reaches correspond to themselves, those
that it makes to those that it makes on the other machine, and all others to none.
-/

namespace Lox

variable {m m₂ : Machine} {vs : List Value} {v : Value} {i n : ScopeId} {x : String}

/-- The scopes that are reached from values. -/
inductive Store.Reaches (σ : Store) (vs : List Value) : ScopeId → Prop where
  | captured {f : Function} (hf : .function f ∈ vs) : Reaches σ vs f.scope
  | parent {i p : ScopeId} (h : Reaches σ vs i) (hp : σ.parent? i = some p) : Reaches σ vs p
  | stored {i : ScopeId} {x : String} {f : Function} (h : Reaches σ vs i)
      (hf : σ.get? i x = some (.function f)) : Reaches σ vs f.scope

/-- What tells a function or native from all others. -/
def Value.identity? : Value → Option Nat
  | .function f => some f.identity
  | .native f => some f.identity
  | _ => none

namespace Machine

/-- The values are given, or bound in a scope that is reached from those given. -/
inductive Sees (m : Machine) (vs : List Value) : Value → Prop where
  | given {v : Value} (h : v ∈ vs) : Sees m vs v
  | bound {i : ScopeId} {x : String} {v : Value} (h : m.store.Reaches vs i)
      (hv : m.store.get? i x = some v) : Sees m vs v

/-- Where the values reach, both machines have the same scopes. The functions and natives that are
seen there are not among those that the second machine has yet to make. -/
structure AgreesFrom (vs : List Value) (m m₂ : Machine) : Prop where
  scopes : ∀ {i : ScopeId} {s : Scope}, m.store.Reaches vs i → m.store.scopes[i]? = some s →
    ∃ t, m₂.store.scopes[i]? = some t ∧ t.parent? = s.parent? ∧ ∀ x, t.get? x = s.get? x
  callDepth : m₂.callDepth = m.callDepth
  callLimit : m₂.callLimit = m.callLimit
  builtins : m₂.builtins = m.builtins
  made : ∀ {v : Value} {a : Nat}, m.Sees vs v → v.identity? = some a → a < m₂.callables

/-- Two runs are cut off, or print the same text and end with the same error, or with values of one
type and text. -/
inductive SameOutcome (m₁ m₂ : Machine) :
    Option (Except RuntimeError Value × Machine) → Option (Except RuntimeError Value × Machine) →
      Prop where
  | cutOff : SameOutcome m₁ m₂ none none
  | error {e m₁' m₂' text} (h₁ : m₁'.output = m₁.output ++ text)
      (h₂ : m₂'.output = m₂.output ++ text) :
      SameOutcome m₁ m₂ (some (.error e, m₁')) (some (.error e, m₂'))
  | ok {v w m₁' m₂' text} (h₁ : m₁'.output = m₁.output ++ text)
      (h₂ : m₂'.output = m₂.output ++ text) (htype : v.type = w.type) (htext : v.text = w.text) :
      SameOutcome m₁ m₂ (some (.ok v, m₁')) (some (.ok w, m₂'))

end Machine

-- ---------------------------------------------------------------------------
-- The correspondence of a call
-- ---------------------------------------------------------------------------

/-- What has the property stands for itself, and from `n` and `k` on one stands for the other. -/
def Pairing.confined (P : Nat → Prop) (n k : Nat) (hP : ∀ i, P i → i < n ∧ i < k) : Pairing where
  rel i j := (P i ∧ i = j) ∨ ∃ d, i = n + d ∧ j = k + d
  lt_iff := by
    rintro i j i' j' (⟨hi, rfl⟩ | ⟨d, rfl, rfl⟩) (⟨hi', rfl⟩ | ⟨d', rfl, rfl⟩)
    · exact Iff.rfl
    · have := hP i hi
      omega
    · have := hP i' hi'
      omega
    · omega

namespace Machine.WellFormed

variable (hm : m.WellFormed) (hvs : ∀ v ∈ vs, m.Has v)

include hm hvs

theorem lt_size_of_reaches (h : m.store.Reaches vs i) : i < m.store.size := by
  induction h with
  | captured hf =>
    cases hvs _ hf with
    | function _ hscope => exact hscope.1
  | parent _ hp ih =>
    obtain ⟨s, hs, hp⟩ := Option.bind_eq_some_iff.1 hp
    exact Nat.lt_trans (hm.mirrors.hung.older hs hp) ih
  | stored _ hf _ =>
    cases hm.has_of_get? hf with
    | function _ hscope => exact hscope.1

theorem has_of_sees (h : m.Sees vs v) : m.Has v := by
  cases h with
  | given h => exact hvs v h
  | bound _ hv => exact hm.has_of_get? hv

theorem agreesFrom_self : m.AgreesFrom vs m where
  scopes _ hs := ⟨_, hs, rfl, fun _ => rfl⟩
  callDepth := rfl
  callLimit := rfl
  builtins := rfl
  made {v a} hv ha := by
    cases hm.has_of_sees hvs hv with
    | function hidentity => cases ha; exact hidentity.1
    | native hidentity => cases ha; exact hidentity.1
    | number | string | boolean | nil => cases ha

section

variable {m' : Machine}
  (hsame : ∀ i, i < m.store.size → m'.store.scopes[i]? = m.store.scopes[i]?)

include hsame

theorem reaches_of_same (h : m'.store.Reaches vs i) : m.store.Reaches vs i := by
  induction h with
  | captured hf => exact .captured hf
  | parent _ hp ih =>
    rw [Store.parent?, hsame _ (hm.lt_size_of_reaches hvs ih)] at hp
    exact .parent ih hp
  | stored _ hf ih =>
    rw [Store.get?, hsame _ (hm.lt_size_of_reaches hvs ih)] at hf
    exact .stored ih hf

/-- Scopes that were made since are not seen from values that were there before. -/
theorem agreesFrom_of_same (hdepth : m.callDepth = m'.callDepth)
    (hlimit : m.callLimit = m'.callLimit) (hbuiltins : m.builtins = m'.builtins) :
    m'.AgreesFrom vs m where
  scopes {i s} hi hs := by
    have hlt := hm.lt_size_of_reaches hvs (hm.reaches_of_same hvs hsame hi)
    exact ⟨s, (hsame i hlt).symm.trans hs, rfl, fun _ => rfl⟩
  callDepth := hdepth
  callLimit := hlimit
  builtins := hbuiltins
  made {v a} hv ha := by
    refine (hm.agreesFrom_self hvs).made ?_ ha
    cases hv with
    | given h => exact .given h
    | @bound i x _ hi hv =>
      have hi := hm.reaches_of_same hvs hsame hi
      rw [Store.get?, hsame i (hm.lt_size_of_reaches hvs hi)] at hv
      exact .bound hi hv

end

variable (hagrees : m.AgreesFrom vs m₂)

include hagrees

theorem lt_size_right_of_reaches (h : m.store.Reaches vs i) : i < m₂.store.size := by
  have hs := Array.getElem?_eq_getElem (hm.lt_size_of_reaches hvs h)
  obtain ⟨t, ht, -⟩ := hagrees.scopes h hs
  exact Store.lt_size ht

end Machine.WellFormed

/-- The scopes that are reached correspond to themselves, and so do all functions and natives that
both machines have made. -/
def Correspondence.confined (hm : m.WellFormed) (hvs : ∀ v ∈ vs, m.Has v)
    (hagrees : m.AgreesFrom vs m₂) : Correspondence where
  scope := .confined (m.store.Reaches vs) m.store.size m₂.store.size fun _ h =>
    ⟨hm.lt_size_of_reaches hvs h, hm.lt_size_right_of_reaches hvs hagrees h⟩
  identity := .confined (fun a => a < m.callables ∧ a < m₂.callables) m.callables m₂.callables
    fun _ => id

namespace Machine.AgreesFrom

variable (hagrees : m.AgreesFrom vs m₂) (hm : m.WellFormed) (hvs : ∀ v ∈ vs, m.Has v)

theorem pairs (hv : m.Sees vs v) : v.Pairs ((Correspondence.confined hm hvs hagrees).on m) v := by
  have hhas := hm.has_of_sees hvs hv
  cases v with
  | function f =>
    have hscope : m.store.Reaches vs f.scope := by
      cases hv with
      | given h => exact .captured h
      | bound h hv => exact .stored h hv
    have hidentity := hagrees.made hv rfl
    cases hhas with
    | function hmade hlt =>
      exact .function ⟨hmade.1, .inl ⟨⟨hmade.1, hidentity⟩, rfl⟩⟩ ⟨hlt.1, .inl ⟨hscope, rfl⟩⟩
  | native f =>
    have hidentity := hagrees.made hv rfl
    cases hhas with
    | native hmade => exact .native ⟨hmade.1, .inl ⟨⟨hmade.1, hidentity⟩, rfl⟩⟩
  | number | string | boolean | nil => constructor

/-- The moments of both machines need not be the same. -/
theorem mirrors (hparallel : ∀ b ∈ m.builtins, ∀ k, b.Parallel (m.moment + k) (m₂.moment + k)) :
    m.Mirrors (.confined hm hvs hagrees) m₂ where
  hung := hm.mirrors.hung
  store.scopes {i j} hij := by
    obtain ⟨hlt, ⟨hi, rfl⟩ | ⟨d, rfl, rfl⟩⟩ := hij
    · have hs := Array.getElem?_eq_getElem hlt
      obtain ⟨t, ht, hparent, hvalues⟩ := hagrees.scopes hi hs
      refine ⟨_, t, hs, ht, ?_, fun x => ?_⟩
      · rw [hparent]
        cases hp : m.store.scopes[i].parent? with
        | none => exact .none
        | some p =>
          have hreaches := hi.parent (Option.bind_eq_some_iff.2 ⟨_, hs, hp⟩)
          exact .some (.here (hm.lt_size_of_reaches hvs hreaches) (.inl ⟨hreaches, rfl⟩))
      · rw [hvalues]
        cases hv : m.store.scopes[i].get? x with
        | none => exact .none
        | some v =>
          have hbound : m.store.get? i x = some v := Option.bind_eq_some_iff.2 ⟨_, hs, hv⟩
          exact .some (hagrees.pairs hm hvs (.bound hi hbound))
    · exact absurd hlt (Nat.not_lt.2 (Nat.le_add_right _ _))
  store.next d := .inr ⟨d, rfl, rfl⟩
  nextIdentity d := .inr ⟨d, rfl, rfl⟩
  callDepth := hagrees.callDepth
  callLimit := hagrees.callLimit
  builtins := hagrees.builtins
  parallel := hparallel

end Machine.AgreesFrom

-- ---------------------------------------------------------------------------
-- Calls
-- ---------------------------------------------------------------------------

theorem Run.Alike.sameOutcome {ρ : Correspondence}
    {o o' : Option (Except RuntimeError Value × Machine)}
    (h : Run.Alike ρ m m₂ Value.Pairs o o') : Machine.SameOutcome m m₂ o o' := by
  cases h with
  | cutOff => exact .cutOff
  | error h =>
    obtain ⟨text, h₁, h₂⟩ := h.printed
    exact .error h₁ h₂
  | ok h hv =>
    obtain ⟨text, h₁, h₂⟩ := h.printed
    exact .ok h₁ h₂ hv.type_eq hv.text_eq

/-- The calls of the function go alongside each other. -/
theorem Machine.AgreesFrom.call_alongside {f : Function} (hm : m.WellFormed)
    (hvs : ∀ v ∈ .function f :: vs, m.Has v) (hagrees : m.AgreesFrom (.function f :: vs) m₂)
    (hparallel : ∀ b ∈ m.builtins, ∀ k, b.Parallel (m.moment + k) (m₂.moment + k))
    (n line : Nat) :
    Run.Alongside (.confined hm hvs hagrees) m m₂ Value.Pairs (call n (.function f) vs line)
      (call n (.function f) vs line) := by
  refine (runsAlongside _ n).call line (hagrees.mirrors hm hvs hparallel)
    (hagrees.pairs hm hvs (.given List.mem_cons_self)) ?_
  refine List.forall₂_same.2 fun v hv => hagrees.pairs hm hvs (.given (List.mem_cons_of_mem _ hv))

/-- A call changes no scope that it does not reach, and ends alike on all machines that agree on
what it reaches, if the built-in functions reply alike there. -/
theorem call_confined {callLimit defined : Nat} {builtins : List Builtin} {m : Machine}
    {f : Function} {vs : List Value} (hbuiltins : ∀ b ∈ builtins, b.Parametric)
    (hm : (Machine.start callLimit builtins defined).Meets m)
    (hvs : ∀ v ∈ .function f :: vs, m.Has v) :
    (∀ n line r m', call n (.function f) vs line m = some (r, m') →
      ∀ i, i < m.store.size → ¬ m.store.Reaches (.function f :: vs) i →
        m'.store.scopes[i]? = m.store.scopes[i]?) ∧
    ∀ m₂, m.AgreesFrom (.function f :: vs) m₂ →
      (m₂.moment = m.moment ∨ ∀ b ∈ builtins, b.Timeless) → ∀ n line,
        Machine.SameOutcome m m₂ (call n (.function f) vs line m)
          (call n (.function f) vs line m₂) := by
  have hwell := hm.wellFormed (.start callLimit defined hbuiltins)
  have hstarted : m.builtins = builtins :=
    hm.builtins.trans (Machine.builtins_start callLimit builtins defined)
  refine ⟨fun n line r m' hcall i hi hnot => ?_, fun m₂ hagrees hmoment n line => ?_⟩
  · have hself := (hwell.agreesFrom_self hvs).call_alongside hwell hvs
      (fun b hb _ => hbuiltins b (hstarted ▸ hb) _) n line
    refine (hself.self hcall).1.untouched hi ?_
    rintro j (⟨hreaches, -⟩ | ⟨d, rfl, -⟩)
    · exact hnot hreaches
    · exact Nat.not_lt.2 (Nat.le_add_right _ _) hi
  · have hparallel : ∀ b ∈ m.builtins, ∀ k, b.Parallel (m.moment + k) (m₂.moment + k) := by
      intro b hb k
      rw [hstarted] at hb
      rcases hmoment with hsame | htimeless
      · rw [hsame]
        exact hbuiltins b hb _
      · exact htimeless b hb _ _
    exact (hagrees.call_alongside hwell hvs hparallel n line).sameOutcome

/-- The machine after `fun f() { return x; }`, and in a block behind it after `var x = true;`. The
scope of the block is not reached from `f`, so a call of `f` fails in the block as it does outside,
and leaves that scope as it is. -/
theorem call_sees_no_caller :
    let body : List Stmt := [.ret (.var "x" 1) 1]
    let m₂ := (Machine.start 9 [.clock 0] 1).declare "f" [] body
    let m := (m₂.enter []).define "x" (.boolean true)
    let f : Function := ⟨1, "f", [], body, 0⟩
    (∀ b ∈ [Builtin.clock 0], b.Timeless) ∧ (Machine.start 9 [.clock 0] 1).Meets m ∧
      (∀ v ∈ [Value.function f], m.Has v) ∧ m.AgreesFrom [.function f] m₂ ∧
      ∃ m', call 9 (.function f) [] 3 m =
          some (.error ⟨.undefinedVariable "x", some 1⟩, m') ∧
        m'.store.scopes[1]? = m.store.scopes[1]? ∧
        Machine.SameOutcome m m₂ (call 9 (.function f) [] 3 m) (call 9 (.function f) [] 3 m₂) := by
  intro body m₂ m f
  have hbuiltins : ∀ b ∈ [Builtin.clock 0], b.Timeless :=
    List.forall_mem_singleton.2 (Builtin.timeless_clock 0)
  have hmeets : (Machine.start 9 [.clock 0] 1).Meets m :=
    ⟨_, 9, [.func ⟨"f", 1⟩ [] body 1, .block [.var ⟨"x", 2⟩ (.literal (.boolean true) 2) 2] 2],
      .start, .finish (.part (.rest rfl) (.part (.first rfl) (.part .block
        (.part (.first rfl) (.self _))))) rfl⟩
  have hmeets₂ : (Machine.start 9 [.clock 0] 1).Meets m₂ :=
    ⟨_, 9, [.func ⟨"f", 1⟩ [] body 1], .start, .finish (.part (.first rfl) (.self _)) rfl⟩
  have hwell₂ := hmeets₂.wellFormed (.start 9 1 fun b hb => (hbuiltins b hb).parametric)
  have hvs : ∀ v ∈ [Value.function f], m.Has v :=
    List.forall_mem_singleton.2 (.function ⟨by decide, rfl⟩ ⟨by decide, rfl⟩)
  have hvs₂ : ∀ v ∈ [Value.function f], m₂.Has v :=
    List.forall_mem_singleton.2 (.function ⟨by decide, rfl⟩ ⟨by decide, rfl⟩)
  have hold (i : ScopeId) (hi : i < m₂.store.size) :
      m.store.scopes[i]? = m₂.store.scopes[i]? := by
    obtain rfl : i = 0 := Nat.lt_one_iff.1 hi
    rfl
  have hagrees : m.AgreesFrom [.function f] m₂ := hwell₂.agreesFrom_of_same hvs₂ hold rfl rfl rfl
  have hunseen : ¬ m.store.Reaches [.function f] 1 := fun h =>
    absurd (hwell₂.lt_size_of_reaches hvs₂ (hwell₂.reaches_of_same hvs₂ hold h)) (by decide)
  obtain ⟨hframe, hsame⟩ :=
    call_confined (fun b hb => (hbuiltins b hb).parametric) hmeets hvs
  exact ⟨hbuiltins, hmeets, hvs, hagrees, _, rfl, hframe 9 3 _ _ rfl 1 (by decide) hunseen,
    hsame m₂ hagrees (.inr hbuiltins) 9 3⟩

end Lox
