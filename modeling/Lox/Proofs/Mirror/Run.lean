-- SUMMARY: Runs on machines that mirror each other go the same way.
import Lox.Proofs.Mirror.Store
import Lox.Proofs.Tree.Names

/-!
## Runs that go alongside

Two machines mirror each other if their stores do, and if they are in as many calls with the same
limit and the same built-in functions. The same code, run on both at scopes that correspond, is cut
off on both or ends on both: with the same error, or with a pair for a value. It prints the same
text on both, the machines mirror each other again, and the scopes on the left that correspond to
none are as they were (`runsAlongside`). If the code declares nothing where it stands, the machine
on the left may also be in empty scopes above the one that corresponds. A value or a scope of the
machine on the left is always one that exists.
-/

namespace Lox

open Attempt

variable {α β : Type} {ρ : Correspondence} {m₁ m₂ m₁' m₂' m₁'' m₂'' : Machine}
  {i j : ScopeId} {name : String} {line : Nat} {v w : Value} {bs cs : List (String × Value)}

/-- What corresponds now, among the scopes and functions that the machine on the left has. -/
def Correspondence.on (ρ : Correspondence) (m : Machine) : Correspondence :=
  ρ.below m.store.size m.callables

namespace Machine

structure Mirrors (ρ : Correspondence) (m₁ m₂ : Machine) : Prop where
  hung : m₁.store.Hung m₁.env.global
  store : Store.Mirrors ρ m₁.callables m₁.store m₂.store
  nextIdentity : ∀ k, ρ.identity.rel (m₁.callables + k) (m₂.callables + k)
  callDepth : m₂.callDepth = m₁.callDepth
  callLimit : m₂.callLimit = m₁.callLimit
  builtins : m₂.builtins = m₁.builtins
  parallel : ∀ b ∈ m₁.builtins, ∀ k, b.Parallel (m₁.moment + k) (m₂.moment + k)

/-- Both machines are at scopes that correspond. -/
def Level (ρ : Correspondence) (m₁ m₂ : Machine) : Prop :=
  (ρ.on m₁).scope.rel m₁.env.current m₂.env.current

/-- Both machines are at scopes that correspond but for empty scopes on the left. -/
def Abreast (ρ : Correspondence) (m₁ m₂ : Machine) : Prop :=
  m₁.store.Leads ρ m₁.env.current m₂.env.current

/-- Both machines may declare the given names. -/
structure Ready (ρ : Correspondence) (names : List String) (m₁ m₂ : Machine) : Prop where
  abreast : Abreast ρ m₁ m₂
  level : names ≠ [] → Level ρ m₁ m₂

theorem Level.abreast (h : Level ρ m₁ m₂) : Abreast ρ m₁ m₂ :=
  .here h.1 h.2

theorem Level.ready (h : Level ρ m₁ m₂) (names : List String) : Ready ρ names m₁ m₂ :=
  ⟨h.abreast, fun _ => h⟩

theorem Ready.mono {names names' : List String} (h : Ready ρ names m₁ m₂)
    (hnames : names' ⊆ names) : Ready ρ names' m₁ m₂ where
  abreast := h.abreast
  level hne := h.level fun hnil => hne (List.subset_nil.1 (hnil ▸ hnames))

/-- Both machines went the same way, from `m₁` to `m₁'` and from `m₂` to `m₂'`. -/
structure Together (ρ : Correspondence) (m₁ m₂ m₁' m₂' : Machine) : Prop where
  mirrors : Mirrors ρ m₁' m₂'
  env : m₁'.env = m₁.env
  env_right : m₂'.env = m₂.env
  size : m₁.store.size ≤ m₁'.store.size
  callables : m₁.callables ≤ m₁'.callables
  printed : ∃ text, m₁'.output = m₁.output ++ text ∧ m₂'.output = m₂.output ++ text
  untouched : ∀ {i}, i < m₁.store.size → (∀ j, ¬ ρ.scope.rel i j) →
    m₁'.store.scopes[i]? = m₁.store.scopes[i]?

/-- Two outputs that grew by the same text, and then by the same text again. -/
theorem printed_trans {a a' a'' b b' b'' : String} (h : ∃ t, a' = a ++ t ∧ b' = b ++ t)
    (h' : ∃ t, a'' = a' ++ t ∧ b'' = b' ++ t) : ∃ t, a'' = a ++ t ∧ b'' = b ++ t := by
  obtain ⟨t, rfl, rfl⟩ := h
  obtain ⟨u, rfl, rfl⟩ := h'
  exact ⟨t ++ u, String.append_assoc, String.append_assoc⟩

namespace Together

theorem refl (h : Mirrors ρ m₁ m₂) : Together ρ m₁ m₂ m₁ m₂ :=
  ⟨h, rfl, rfl, Nat.le_refl _, Nat.le_refl _, ⟨"", by simp⟩, fun _ _ => rfl⟩

theorem trans (h : Together ρ m₁ m₂ m₁' m₂') (h' : Together ρ m₁' m₂' m₁'' m₂'') :
    Together ρ m₁ m₂ m₁'' m₂'' where
  mirrors := h'.mirrors
  env := h'.env.trans h.env
  env_right := h'.env_right.trans h.env_right
  size := Nat.le_trans h.size h'.size
  callables := Nat.le_trans h.callables h'.callables
  printed := printed_trans h.printed h'.printed
  untouched hi hnone := by
    rw [h'.untouched (Nat.lt_of_lt_of_le hi h.size) hnone, h.untouched hi hnone]

theorem within (h : Together ρ m₁ m₂ m₁' m₂') : (ρ.on m₁).Within (ρ.on m₁') :=
  ρ.below_within h.size h.callables

theorem level (h : Together ρ m₁ m₂ m₁' m₂') (hat : Level ρ m₁ m₂) : Level ρ m₁' m₂' := by
  unfold Level
  rw [h.env, h.env_right]
  exact h.within.scope hat

theorem abreast (h : Together ρ m₁ m₂ m₁' m₂') (hat : Abreast ρ m₁ m₂) : Abreast ρ m₁' m₂' := by
  unfold Abreast
  rw [h.env, h.env_right]
  exact hat.mono h.size (fun _ => Iff.rfl) h.untouched

theorem ready {names : List String} (h : Together ρ m₁ m₂ m₁' m₂')
    (hat : Ready ρ names m₁ m₂) : Ready ρ names m₁' m₂' :=
  ⟨h.abreast hat.abreast, fun hne => h.level (hat.level hne)⟩

end Together

-- ---------------------------------------------------------------------------
-- Steps of both machines
-- ---------------------------------------------------------------------------

namespace Mirrors

variable (h : Mirrors ρ m₁ m₂)

include h

/-- It does not matter which scopes are open, and in which calls the machines are. -/
theorem moved {env₁ env₂ : Environment} {d₁ d₂ : Nat} (hglobal : env₁.global = m₁.env.global)
    (hdepth : d₂ = d₁) :
    Mirrors ρ { m₁ with env := env₁, callDepth := d₁ } { m₂ with env := env₂, callDepth := d₂ } :=
  ⟨hglobal ▸ h.hung, h.store, h.nextIdentity, hdepth, h.callLimit, h.builtins, h.parallel⟩

theorem print (text : String) : Together ρ m₁ m₂ { m₁ with output := m₁.output ++ text ++ "\n" }
    { m₂ with output := m₂.output ++ text ++ "\n" } :=
  ⟨⟨h.hung, h.store, h.nextIdentity, h.callDepth, h.callLimit, h.builtins, h.parallel⟩, rfl, rfl,
    Nat.le_refl _, Nat.le_refl _, ⟨text ++ "\n", by simp [String.append_assoc]⟩, fun _ _ => rfl⟩

/-- A pair is bound to a name in scopes that correspond. -/
theorem bindAt (name : String) (hij : (ρ.on m₁).scope.rel i j) (hv : v.Pairs (ρ.on m₁) w) :
    Together ρ m₁ m₂ { m₁ with store := m₁.store.define i name v }
      { m₂ with store := m₂.store.define j name w } where
  mirrors := ⟨h.hung.define, h.store.define hij hv, h.nextIdentity, h.callDepth, h.callLimit,
    h.builtins, h.parallel⟩
  env := rfl
  env_right := rfl
  size := Nat.le_of_eq Store.size_define.symm
  callables := Nat.le_refl _
  printed := ⟨"", by simp⟩
  untouched _ hnone := by
    refine Store.getElem?_define_of_ne ?_
    rintro rfl
    exact hnone _ hij.2

theorem newIdentity : Together ρ m₁ m₂ { m₁ with callables := m₁.callables + 1 }
    { m₂ with callables := m₂.callables + 1 } where
  mirrors := by
    refine ⟨h.hung, h.store.more (Nat.le_succ _), fun k => ?_, h.callDepth, h.callLimit,
      h.builtins, h.parallel⟩
    have hnext := h.nextIdentity (k + 1)
    rwa [← Nat.succ_add_eq_add_succ, ← Nat.succ_add_eq_add_succ] at hnext
  env := rfl
  env_right := rfl
  size := Nat.le_refl _
  callables := Nat.le_succ _
  printed := ⟨"", by simp⟩
  untouched _ _ := rfl

theorem tick : Together ρ m₁ m₂ m₁.tick m₂.tick where
  mirrors := by
    refine ⟨h.hung, h.store, h.nextIdentity, h.callDepth, h.callLimit, h.builtins, ?_⟩
    intro b hb k
    have hnext := h.parallel b hb (k + 1)
    rwa [← Nat.succ_add_eq_add_succ, ← Nat.succ_add_eq_add_succ] at hnext
  env := rfl
  env_right := rfl
  size := Nat.le_refl _
  callables := Nat.le_refl _
  printed := ⟨"", by simp [Machine.tick]⟩
  untouched _ _ := rfl

theorem declare (hat : Level ρ m₁ m₂) (name : String) (parameters : List String)
    (body : List Stmt) :
    Together ρ m₁ m₂ (m₁.declare name parameters body) (m₂.declare name parameters body) := by
  have hnew := h.newIdentity
  have hidentity : (ρ.on { m₁ with callables := m₁.callables + 1 }).identity.rel m₁.callables
      m₂.callables := ⟨Nat.lt_succ_self _, h.nextIdentity 0⟩
  exact hnew.trans (hnew.mirrors.bindAt name (hnew.level hat)
    (.function hidentity (hnew.within.scope hat)))

theorem lookup (hat : Abreast ρ m₁ m₂) (name : String) :
    Option.Rel (Value.Pairs (ρ.on m₁)) (m₁.lookup name) (m₂.lookup name) :=
  h.store.lookup h.hung hat name

theorem enter (hat : Abreast ρ m₁ m₂) (hbs : PairsAll (ρ.on m₁) bs cs) :
    Mirrors ρ (m₁.enter bs) (m₂.enter cs) ∧ Level ρ (m₁.enter bs) (m₂.enter cs) := by
  have hwithin : (ρ.on m₁).Within
      (ρ.below (m₁.store.allocate (some m₁.env.current)).2.size m₁.callables) :=
    ρ.below_within (Store.size_allocate _ ▸ Nat.le_succ _) (Nat.le_refl _)
  have hnew : (ρ.below (m₁.store.allocate (some m₁.env.current)).2.size m₁.callables).scope.rel
      m₁.store.size m₂.store.size :=
    ⟨Store.size_allocate _ ▸ Nat.lt_succ_self _, h.store.next 0⟩
  refine ⟨⟨(h.hung.allocate hat.lt_size).defineAll, ?_, h.nextIdentity, h.callDepth, h.callLimit,
    h.builtins, h.parallel⟩, ?_⟩
  · exact (h.store.allocate hat).defineAll hnew (hbs.mono hwithin)
  · exact ⟨size_enter ▸ Nat.lt_succ_self _, h.store.next 0⟩

theorem calling (hij : (ρ.on m₁).scope.rel i j) :
    Mirrors ρ (m₁.calling i) (m₂.calling j) ∧ Level ρ (m₁.calling i) (m₂.calling j) :=
  ⟨h.moved rfl (congrArg (· + 1) h.callDepth), hij⟩

end Mirrors

namespace Together

theorem leave (h : Together ρ (m₁.enter bs) (m₂.enter cs) m₁' m₂') :
    Together ρ m₁ m₂ m₁'.leave m₂'.leave where
  mirrors := h.mirrors.moved (by rw [h.env]; rfl) h.mirrors.callDepth
  env := by
    rw [Machine.leave, h.env]
    rfl
  env_right := by
    rw [Machine.leave, h.env_right]
    rfl
  size := Nat.le_trans (size_enter ▸ Nat.le_succ _) h.size
  callables := h.callables
  printed := h.printed
  untouched hi hnone := by
    exact (h.untouched (size_enter ▸ Nat.lt_succ_of_lt hi) hnone).trans (getElem?_enter hi)

theorem back (hm : Mirrors ρ m₁ m₂) (h : Together ρ (m₁.calling i) (m₂.calling j) m₁' m₂') :
    Together ρ m₁ m₂ (m₁'.returningTo m₁) (m₂'.returningTo m₂) where
  mirrors := h.mirrors.moved (by rw [h.env]; rfl) hm.callDepth
  env := rfl
  env_right := rfl
  size := h.size
  callables := h.callables
  printed := h.printed
  untouched := h.untouched

end Together
end Machine

namespace Run

open Machine

/-- Two outcomes of which one is an outcome alongside the other. The values that they end with are
related by `P`, under what corresponds then. -/
inductive Alike (ρ : Correspondence) (m₁ m₂ : Machine) (P : Correspondence → α → α → Prop) :
    Option (Except RuntimeError α × Machine) → Option (Except RuntimeError α × Machine) → Prop where
  | cutOff : Alike ρ m₁ m₂ P none none
  | error {e m₁' m₂'} (h : Together ρ m₁ m₂ m₁' m₂') :
      Alike ρ m₁ m₂ P (some (.error e, m₁')) (some (.error e, m₂'))
  | ok {a b m₁' m₂'} (h : Together ρ m₁ m₂ m₁' m₂') (hab : P (ρ.on m₁') a b) :
      Alike ρ m₁ m₂ P (some (.ok a, m₁')) (some (.ok b, m₂'))

/-- From `m₁` and `m₂` on, `x` and `y` go the same way. -/
def Alongside (ρ : Correspondence) (m₁ m₂ : Machine) (P : Correspondence → α → α → Prop)
    (x y : Run α) : Prop :=
  Alike ρ m₁ m₂ P (x m₁) (y m₂)

namespace Alongside

variable {P : Correspondence → α → α → Prop} {Q : Correspondence → β → β → Prop}

theorem pure (hm : Mirrors ρ m₁ m₂) {a b : α} (hab : P (ρ.on m₁) a b) :
    Alongside ρ m₁ m₂ P (Pure.pure a) (Pure.pure b) :=
  .ok (.refl hm) hab

theorem fail (hm : Mirrors ρ m₁ m₂) (fault : Fault) :
    Alongside ρ m₁ m₂ P (Run.fail fault line) (Run.fail fault line) :=
  .error (.refl hm)

theorem cutOff : Alongside ρ m₁ m₂ P Attempt.cutOff Attempt.cutOff :=
  Alike.cutOff

theorem after (h : Together ρ m₁ m₂ m₁' m₂') {o o' : Option (Except RuntimeError α × Machine)}
    (ho : Alike ρ m₁' m₂' P o o') : Alike ρ m₁ m₂ P o o' := by
  cases ho with
  | cutOff => exact .cutOff
  | error h' => exact .error (h.trans h')
  | ok h' hab => exact .ok (h.trans h') hab

theorem bind {x y : Run α} {f g : α → Run β} (hx : Alongside ρ m₁ m₂ P x y)
    (hf : ∀ a b m₁' m₂', Together ρ m₁ m₂ m₁' m₂' → P (ρ.on m₁') a b →
      Alongside ρ m₁' m₂' Q (f a) (g b)) : Alongside ρ m₁ m₂ Q (x >>= f) (y >>= g) := by
  unfold Alongside at hx ⊢
  rw [bind_apply, bind_apply]
  match x m₁, y m₂, hx with
  | _, _, .cutOff => exact .cutOff
  | _, _, .error h => exact .error h
  | _, _, .ok h hab => exact after h (hf _ _ _ _ h hab)

theorem located (hm : Mirrors ρ m₁ m₂) {x : Except Fault Value}
    (h : ∀ u, x = .ok u → u.Pairs (ρ.on m₁) u) :
    Alongside ρ m₁ m₂ Value.Pairs (Run.located line x) (Run.located line x) := by
  cases x with
  | ok u => exact .pure hm (h u rfl)
  | error fault => exact .fail hm fault

theorem print (hm : Mirrors ρ m₁ m₂) (text : String) :
    Alongside ρ m₁ m₂ (fun _ _ _ => True) (Run.print text) (Run.print text) :=
  .ok (hm.print text) trivial

theorem define (hm : Mirrors ρ m₁ m₂) (hat : m₁.Level ρ m₂) (name : String)
    (hv : v.Pairs (ρ.on m₁) w) :
    Alongside ρ m₁ m₂ (fun _ _ _ => True) (Run.define name v) (Run.define name w) :=
  .ok (hm.bindAt name hat hv) trivial

theorem declare (hm : Mirrors ρ m₁ m₂) (hat : m₁.Level ρ m₂) (name : String)
    (parameters : List String) (body : List Stmt) :
    Alongside ρ m₁ m₂ (fun _ _ _ => True) (Run.declare name parameters body)
      (Run.declare name parameters body) :=
  .ok (hm.declare hat name parameters body) trivial

theorem lookup (hm : Mirrors ρ m₁ m₂) (hat : m₁.Abreast ρ m₂) (name : String) :
    Alongside ρ m₁ m₂ Value.Pairs (Run.lookup name line) (Run.lookup name line) := by
  unfold Alongside
  rw [Run.lookup, bind_apply, bind_apply, gets_apply, gets_apply]
  match m₁.lookup name, m₂.lookup name, hm.lookup hat name with
  | _, _, .none => exact Alongside.fail hm _
  | _, _, .some hv => exact Alongside.pure hm hv

theorem assign (hm : Mirrors ρ m₁ m₂) (hat : m₁.Abreast ρ m₂) (name : String)
    (hv : v.Pairs (ρ.on m₁) w) :
    Alongside ρ m₁ m₂ (fun _ _ _ => True) (Run.assign name v line) (Run.assign name w line) := by
  have hholder := hm.store.holderWithin (x := name) hm.hung hat (Nat.lt_succ_self _)
    (Nat.lt_succ_self _)
  unfold Alongside
  rw [Run.assign, Run.assign, tryStep_apply, tryStep_apply]
  unfold Store.holder?
  match m₁.store.holderWithin name (m₁.env.current + 1) m₁.env.current,
    m₂.store.holderWithin name (m₂.env.current + 1) m₂.env.current, hholder with
  | _, _, .none => exact .error (.refl hm)
  | _, _, .some hij => exact .ok (hm.bindAt name hij hv) trivial

theorem checkCount (hm : Mirrors ρ m₁ m₂) (name : String) (expected : Nat) {got got' : Nat}
    (hgot : got = got') :
    Alongside ρ m₁ m₂ (fun _ _ _ => True) (Run.checkCount name expected got line)
      (Run.checkCount name expected got' line) := by
  unfold Run.checkCount
  rw [hgot]
  split
  · exact .pure hm trivial
  · exact .fail hm _

theorem checkDepth (hm : Mirrors ρ m₁ m₂) :
    Alongside ρ m₁ m₂ (fun _ _ _ => True) (Run.checkDepth line) (Run.checkDepth line) := by
  unfold Alongside
  rw [Run.checkDepth, bind_apply, bind_apply, gets_apply, gets_apply, hm.callDepth, hm.callLimit]
  dsimp only
  split
  · exact Alongside.fail hm _
  · exact Alongside.pure hm trivial

theorem callBuiltin (hm : Mirrors ρ m₁ m₂) {f g : Native} (hname : f.name = g.name)
    {vs ws : List Value} (hvs : List.Forall₂ (Value.Pairs (ρ.on m₁)) vs ws) :
    Alongside ρ m₁ m₂ Value.Pairs (Run.callBuiltin f vs line) (Run.callBuiltin g ws line) := by
  unfold Alongside
  rw [callBuiltin_apply, callBuiltin_apply, hm.builtins, hname]
  cases hb : m₁.builtins.find? fun b => b.name == g.name with
  | none => exact Alongside.fail hm _
  | some b =>
    have hparallel : b.Parallel m₁.moment m₂.moment :=
      hm.parallel b (List.mem_of_find?_eq_some hb) 0
    have htick := hm.tick
    rcases hparallel _ vs ws hvs with ⟨fault, hv, hw⟩ | ⟨v, w, hv, hw, hpair⟩
    · simp only [hv, hw]
      exact after htick (Alongside.fail htick.mirrors fault)
    · simp only [hv, hw]
      exact after htick (Alongside.pure htick.mirrors hpair)

theorem inScope {x y : Run α} (h : Alongside ρ (m₁.enter bs) (m₂.enter cs) P x y) :
    Alongside ρ m₁ m₂ P (Run.inScope bs x) (Run.inScope cs y) := by
  unfold Alongside at h ⊢
  rw [inScope_apply, inScope_apply]
  match x (m₁.enter bs), y (m₂.enter cs), h with
  | _, _, .cutOff => exact .cutOff
  | _, _, .error h => exact .error h.leave
  | _, _, .ok h hab => exact .ok h.leave hab

theorem inFrame {x y : Run α} (hm : Mirrors ρ m₁ m₂)
    (h : Alongside ρ (m₁.calling i) (m₂.calling j) P x y) :
    Alongside ρ m₁ m₂ P (Run.inFrame i x) (Run.inFrame j y) := by
  unfold Alongside at h ⊢
  rw [inFrame_apply, inFrame_apply]
  match x (m₁.calling i), y (m₂.calling j), h with
  | _, _, .cutOff => exact .cutOff
  | _, _, .error h => exact .error (.back hm h)
  | _, _, .ok h hab => exact .ok (.back hm h) hab

end Alongside
end Run

-- ---------------------------------------------------------------------------
-- Runs
-- ---------------------------------------------------------------------------

/-- Runs with `n` units of fuel go alongside each other. -/
structure RunsAlongside (ρ : Correspondence) (n : Nat) : Prop where
  eval : ∀ {m₁ m₂ : Machine} (e : Expr), m₁.Mirrors ρ m₂ → m₁.Abreast ρ m₂ →
    Run.Alongside ρ m₁ m₂ Value.Pairs (eval n e) (eval n e)
  evalAll : ∀ {m₁ m₂ : Machine} (es : List Expr), m₁.Mirrors ρ m₂ → m₁.Abreast ρ m₂ →
    Run.Alongside ρ m₁ m₂ (fun ρ => List.Forall₂ (Value.Pairs ρ)) (evalAll n es) (evalAll n es)
  call : ∀ {m₁ m₂ : Machine} {f g : Value} {vs ws : List Value} (line : Nat), m₁.Mirrors ρ m₂ →
    f.Pairs (ρ.on m₁) g → List.Forall₂ (Value.Pairs (ρ.on m₁)) vs ws →
    Run.Alongside ρ m₁ m₂ Value.Pairs (call n f vs line) (call n g ws line)
  exec : ∀ {m₁ m₂ : Machine} (s : Stmt), m₁.Mirrors ρ m₂ → m₁.Ready ρ s.declared m₂ →
    Run.Alongside ρ m₁ m₂ Completion.Pairs (exec n s) (exec n s)
  execAll : ∀ {m₁ m₂ : Machine} (ss : List Stmt), m₁.Mirrors ρ m₂ →
    m₁.Ready ρ (Stmt.declaredAll ss) m₂ →
    Run.Alongside ρ m₁ m₂ Completion.Pairs (execAll n ss) (execAll n ss)

namespace RunsAlongside

variable {n : Nat} (ih : RunsAlongside ρ n)

include ih

theorem eval_succ (e : Expr) (hm : m₁.Mirrors ρ m₂) (hat : m₁.Abreast ρ m₂) :
    Run.Alongside ρ m₁ m₂ Value.Pairs (Lox.eval (n + 1) e) (Lox.eval (n + 1) e) := by
  cases e with
  | literal l => exact .pure hm (.literal l)
  | var name line => exact .lookup hm hat name
  | assign name value line =>
    refine .bind (ih.eval value hm hat) fun v w _ _ h hv => ?_
    refine .bind (.assign h.mirrors (h.abreast hat) name hv) fun _ _ _ _ h' _ => ?_
    exact .pure h'.mirrors (hv.mono h'.within)
  | binary op left right line =>
    refine .bind (ih.eval left hm hat) fun v v' _ _ h hv => ?_
    refine .bind (ih.eval right h.mirrors (h.abreast hat)) fun w w' _ _ h' hw => ?_
    rw [op.apply_pairs (hv.mono h'.within) hw]
    exact .located h'.mirrors fun _ => op.pairs_of_apply
  | logical op left right line =>
    refine .bind (ih.eval left hm hat) fun v w _ _ h hv => ?_
    have hright := ih.eval right h.mirrors (h.abreast hat)
    rw [hv.isNil_eq]
    split
    · exact hright
    · exact .pure h.mirrors hv
    · exact .pure h.mirrors .nil
    · exact hright
  | unary op operand line =>
    refine .bind (ih.eval operand hm hat) fun v w _ _ h hv => ?_
    rw [op.apply_pairs hv]
    exact .located h.mirrors fun _ => op.pairs_of_apply
  | group inner => exact ih.eval inner hm hat
  | call callee arguments line =>
    refine .bind (ih.eval callee hm hat) fun f g _ _ h hf => ?_
    refine .bind (ih.evalAll arguments h.mirrors (h.abreast hat)) fun vs ws _ _ h' hvs => ?_
    exact ih.call line h'.mirrors (hf.mono h'.within) hvs

theorem evalAll_succ (es : List Expr) (hm : m₁.Mirrors ρ m₂) (hat : m₁.Abreast ρ m₂) :
    Run.Alongside ρ m₁ m₂ (fun ρ => List.Forall₂ (Value.Pairs ρ)) (Lox.evalAll (n + 1) es)
      (Lox.evalAll (n + 1) es) := by
  cases es with
  | nil => exact .pure hm .nil
  | cons e es =>
    refine .bind (ih.eval e hm hat) fun v w _ _ h hv => ?_
    refine .bind (ih.evalAll es h.mirrors (h.abreast hat)) fun vs ws _ _ h' hvs => ?_
    exact .pure h'.mirrors (.cons (hv.mono h'.within) hvs)

/-- The scopes that both functions carry correspond, so it does not matter where the callers are. -/
theorem call_succ {f g : Value} {vs ws : List Value} (line : Nat) (hm : m₁.Mirrors ρ m₂)
    (hf : f.Pairs (ρ.on m₁) g) (hvs : List.Forall₂ (Value.Pairs (ρ.on m₁)) vs ws) :
    Run.Alongside ρ m₁ m₂ Value.Pairs (Lox.call (n + 1) f vs line)
      (Lox.call (n + 1) g ws line) := by
  cases hf with
  | @function name parameters body _ _ _ _ _ hscope =>
    refine .bind (.checkCount hm name _ hvs.length_eq) fun _ _ _ _ h _ => ?_
    refine .bind (.checkDepth h.mirrors) fun _ _ _ _ h' _ => ?_
    have hwithin := (h.trans h').within
    obtain ⟨hcalling, hat⟩ := h'.mirrors.calling (hwithin.scope hscope)
    have hbs := PairsAll.zip (hvs.imp fun _ _ hv => hv.mono hwithin) parameters
    obtain ⟨henter, hat⟩ := hcalling.enter hat.abreast hbs
    refine .inFrame h'.mirrors (.inScope (.bind (ih.execAll body henter (hat.ready _)) ?_))
    exact fun c d _ _ h hc => .pure h.mirrors hc.value
  | @native name =>
    refine .bind (.checkCount hm name _ hvs.length_eq) fun _ _ _ _ h _ => ?_
    exact .callBuiltin h.mirrors rfl (hvs.imp fun _ _ hv => hv.mono h.within)
  | number | string | boolean | nil => exact .fail hm _

theorem exec_succ (s : Stmt) (hm : m₁.Mirrors ρ m₂) (hat : m₁.Ready ρ s.declared m₂) :
    Run.Alongside ρ m₁ m₂ Completion.Pairs (Lox.exec (n + 1) s) (Lox.exec (n + 1) s) := by
  cases s with
  | expr e => exact .bind (ih.eval e hm hat.abreast) fun _ _ _ _ h _ => .pure h.mirrors .normal
  | print e =>
    refine .bind (ih.eval e hm hat.abreast) fun v w _ _ h hv => ?_
    rw [hv.text_eq]
    exact .bind (.print h.mirrors _) fun _ _ _ _ h' _ => .pure h'.mirrors .normal
  | var name e =>
    have hlevel := hat.level (List.cons_ne_nil _ _)
    refine .bind (ih.eval e hm hat.abreast) fun v w _ _ h hv => ?_
    refine .bind (.define h.mirrors (h.level hlevel) name.text hv) fun _ _ _ _ h' _ => ?_
    exact .pure h'.mirrors .normal
  | block body =>
    obtain ⟨hinner, hat'⟩ := hm.enter hat.abreast .nil
    exact .inScope (ih.execAll body hinner (hat'.ready _))
  | branch condition yes no line =>
    refine .bind (ih.eval condition hm hat.abreast) fun v w _ _ h hv => ?_
    rw [hv.isTrue_eq]
    split
    · exact ih.exec yes h.mirrors (h.ready (hat.mono (List.subset_append_left _ _)))
    · cases no with
      | none => exact .pure h.mirrors .normal
      | some no => exact ih.exec no h.mirrors (h.ready (hat.mono (List.subset_append_right _ _)))
  | loop condition body line =>
    refine .bind (ih.eval condition hm hat.abreast) fun v w _ _ h hv => ?_
    rw [hv.isTrue_eq]
    split
    · refine .bind (ih.exec body h.mirrors (h.ready hat)) fun c d _ _ h' hc => ?_
      cases hc with
      | normal => exact ih.exec _ h'.mirrors (h'.ready (h.ready hat))
      | returned hv => exact .pure h'.mirrors (.returned hv)
    · exact .pure h.mirrors .normal
  | func name parameters body line =>
    refine .bind (.declare hm (hat.level (List.cons_ne_nil _ _)) name.text _ body) ?_
    exact fun _ _ _ _ h _ => .pure h.mirrors .normal
  | ret e =>
    exact .bind (ih.eval e hm hat.abreast) fun _ _ _ _ h hv => .pure h.mirrors (.returned hv)

theorem execAll_succ (ss : List Stmt) (hm : m₁.Mirrors ρ m₂)
    (hat : m₁.Ready ρ (Stmt.declaredAll ss) m₂) :
    Run.Alongside ρ m₁ m₂ Completion.Pairs (Lox.execAll (n + 1) ss)
      (Lox.execAll (n + 1) ss) := by
  cases ss with
  | nil => exact .pure hm .normal
  | cons s ss =>
    have hs : s.declared ⊆ Stmt.declaredAll (s :: ss) := List.subset_append_left _ _
    have hss : Stmt.declaredAll ss ⊆ Stmt.declaredAll (s :: ss) := List.subset_append_right _ _
    refine .bind (ih.exec s hm (hat.mono hs)) fun c d _ _ h hc => ?_
    cases hc with
    | normal => exact ih.execAll ss h.mirrors (h.ready (hat.mono hss))
    | returned hv => exact .pure h.mirrors (.returned hv)

end RunsAlongside

theorem runsAlongside (ρ : Correspondence) (n : Nat) : RunsAlongside ρ n := by
  induction n with
  | zero => constructor <;> intros <;> exact .cutOff
  | succ n ih => exact ⟨ih.eval_succ, ih.evalAll_succ, ih.call_succ, ih.exec_succ, ih.execAll_succ⟩

end Lox
