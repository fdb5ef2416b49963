-- SUMMARY: What the operations of the store do to its scopes, and to the scopes of a machine.
import Lox.Proofs.Attempt
import Lox.Run.Machine

/-!
## Operations of the store

Defining a name changes the binding of that name in one scope. A new scope stands behind all others
and leaves them alone. The steps of a machine that change its store are made of these two.
-/

namespace Lox

variable {i j : ScopeId} {x y name : String} {v w : Value} {bs : List (String × Value)}

namespace Scope

variable {s : Scope}

theorem binds_define : (s.define x v).binds y = true ↔ y = x ∨ s.binds y = true := by
  unfold binds
  rw [get?_define]
  by_cases h : y = x <;> simp [h]

end Scope

namespace Store

variable {σ : Store}

def size (σ : Store) : Nat :=
  σ.scopes.size

def parent? (σ : Store) (i : ScopeId) : Option ScopeId :=
  σ.scopes[i]?.bind Scope.parent?

-- ---------------------------------------------------------------------------
-- Defining names
-- ---------------------------------------------------------------------------

theorem getElem?_define :
    (σ.define i x v).scopes[j]? =
      if i = j then (σ.scopes[j]?).map fun s => s.define x v else σ.scopes[j]? :=
  Array.getElem?_modify

theorem getElem?_define_of_ne (h : i ≠ j) : (σ.define i x v).scopes[j]? = σ.scopes[j]? := by
  rw [getElem?_define, if_neg h]

@[simp] theorem size_define : (σ.define i x v).size = σ.size :=
  Array.size_modify

@[simp] theorem parent?_define : (σ.define i x v).parent? j = σ.parent? j := by
  unfold parent?
  rw [getElem?_define]
  split
  · cases σ.scopes[j]? <;> rfl
  · rfl

/-- A definition changes one binding. -/
theorem get?_define_of_ne (h : i ≠ j ∨ y ≠ x) : (σ.define i x v).get? j y = σ.get? j y := by
  unfold get?
  rw [getElem?_define]
  by_cases hij : i = j
  · have hyx : y ≠ x := h.resolve_left (absurd hij)
    cases hs : σ.scopes[j]? with
    | none => simp
    | some s => simp [hij, Scope.get?_define, hyx]
  · rw [if_neg hij]

theorem get?_define_self (h : i < σ.size) : (σ.define i x v).get? i x = some v := by
  unfold get?
  rw [getElem?_define, if_pos rfl, Array.getElem?_eq_getElem h]
  simp [Scope.get?_define]

/-- What is bound after a definition was bound before, or is the value defined. -/
theorem eq_or_get?_of_define (h : (σ.define i x v).get? j y = some w) :
    w = v ∨ σ.get? j y = some w := by
  by_cases hij : i = j ∧ y = x
  · obtain ⟨rfl, rfl⟩ := hij
    by_cases hi : i < σ.size
    · rw [get?_define_self hi] at h
      exact .inl (Option.some.inj h).symm
    · have hnone : (σ.define i y v).scopes[i]? = none := by
        rw [Array.getElem?_eq_none_iff]
        exact Nat.le_of_not_lt fun hlt => hi (by rwa [← size_define])
      rw [get?, hnone] at h
      cases h
  · rw [get?_define_of_ne (Decidable.not_and_iff_not_or_not.1 hij)] at h
    exact .inr h

/-- Defines names in a scope, one after the other. -/
def defineAll (σ : Store) (i : ScopeId) (bs : List (String × Value)) : Store :=
  bs.foldl (fun σ (name, v) => σ.define i name v) σ

theorem defineAll_cons {b : String × Value} :
    σ.defineAll i (b :: bs) = (σ.define i b.1 b.2).defineAll i bs := rfl

theorem getElem?_defineAll_of_ne (h : i ≠ j) : (σ.defineAll i bs).scopes[j]? = σ.scopes[j]? := by
  induction bs generalizing σ with
  | nil => rfl
  | cons b bs ih => rw [defineAll_cons, ih, getElem?_define_of_ne h]

@[simp] theorem size_defineAll : (σ.defineAll i bs).size = σ.size := by
  induction bs generalizing σ with
  | nil => rfl
  | cons b bs ih => rw [defineAll_cons, ih, size_define]

theorem mem_or_get?_of_defineAll (h : (σ.defineAll i bs).get? j y = some w) :
    (∃ b ∈ bs, b.2 = w) ∨ σ.get? j y = some w := by
  induction bs generalizing σ with
  | nil => exact .inr h
  | cons b bs ih =>
    rcases ih h with ⟨c, hc, hw⟩ | h
    · exact .inl ⟨c, List.mem_cons_of_mem b hc, hw⟩
    · rcases eq_or_get?_of_define h with rfl | h
      · exact .inl ⟨b, List.mem_cons_self, rfl⟩
      · exact .inr h


-- ---------------------------------------------------------------------------
-- New scopes
-- ---------------------------------------------------------------------------

theorem getElem?_allocate {parent? : Option ScopeId} :
    (σ.allocate parent?).2.scopes[j]? =
      if j = σ.size then some { bindings := [], parent? } else σ.scopes[j]? :=
  Array.getElem?_push

theorem getElem?_allocate_of_lt {parent? : Option ScopeId} (h : j < σ.size) :
    (σ.allocate parent?).2.scopes[j]? = σ.scopes[j]? := by
  rw [getElem?_allocate, if_neg (Nat.ne_of_lt h)]

theorem parent?_allocate {p? : Option ScopeId} :
    (σ.allocate p?).2.parent? j = if j = σ.size then p? else σ.parent? j := by
  unfold parent?
  rw [getElem?_allocate]
  split <;> rfl

@[simp] theorem size_allocate (parent? : Option ScopeId) :
    (σ.allocate parent?).2.size = σ.size + 1 :=
  Array.size_push _

theorem get?_of_allocate {parent? : Option ScopeId}
    (h : (σ.allocate parent?).2.get? j y = some w) : σ.get? j y = some w := by
  unfold get? at h
  rw [getElem?_allocate] at h
  split at h
  · cases h
  · exact h

theorem lt_size {s : Scope} (h : σ.scopes[i]? = some s) : i < σ.size :=
  (Array.getElem?_eq_some_iff.1 h).1

end Store

-- ---------------------------------------------------------------------------
-- Steps of a machine
-- ---------------------------------------------------------------------------

/-- The clock shows a number or fails, whatever its arguments. -/
theorem Builtin.clockOf_replies (readings : Readings) (moment : Nat) :
    (∃ now, ∀ vs, (clockOf readings).run vs moment = .ok (.number now)) ∨
      ∃ reason, ∀ vs, (clockOf readings).run vs moment =
        .error (.nativeFailure "clock" reason) := by
  cases h : readings moment with
  | ok now => exact .inl ⟨now, fun _ => by simp [clockOf, h]⟩
  | error reason => exact .inr ⟨reason, fun _ => by simp [clockOf, h]⟩

theorem Builtin.number_of_clockOf {readings : Readings} {vs : List Value} {moment : Nat}
    (h : (clockOf readings).run vs moment = .ok v) : ∃ now, v = .number now := by
  rcases clockOf_replies readings moment with ⟨now, hclock⟩ | ⟨reason, hclock⟩
  · exact ⟨now, (Except.ok.inj ((hclock vs).symm.trans h)).symm⟩
  · cases (hclock vs).symm.trans h

namespace Machine

variable {m : Machine}

/-- A machine before its first run, with the natives of the command line, where the clock shows the
given readings. -/
def fresh (callLimit : Nat) (readings : Readings) : Machine :=
  .start callLimit [.clockOf readings] 1

/-- The machine after the declaration of a function. -/
def declare (m : Machine) (name : String) (parameters : List String) (body : List Stmt) : Machine :=
  let (identity, m) := m.newIdentity
  m.define name (.function { identity, name, parameters, body, scope := m.env.current })

/-- The machine at the start of a call of a function that was declared in scope `i`. -/
def calling (m : Machine) (i : ScopeId) : Machine :=
  { m with env := m.env.enclosed i, callDepth := m.callDepth + 1 }

/-- The machine at the end of a call, back at the place that `m` was at. -/
def returningTo (m₁ m : Machine) : Machine :=
  { m₁ with env := m.env, callDepth := m.callDepth }

theorem store_enter : (m.enter bs).store =
    (m.store.allocate (some m.env.current)).2.defineAll m.store.size bs := rfl

@[simp] theorem env_enter : (m.enter bs).env = m.env.push m.store.size := rfl

theorem current_enter : (m.enter bs).env.current = m.store.size := rfl

theorem size_enter : (m.enter bs).store.size = m.store.size + 1 := by
  rw [store_enter, Store.size_defineAll]
  exact Array.size_push _

/-- A scope that is opened is none of those that were there. -/
theorem getElem?_enter (h : i < m.store.size) :
    (m.enter bs).store.scopes[i]? = m.store.scopes[i]? := by
  rw [store_enter, Store.getElem?_defineAll_of_ne (Nat.ne_of_gt h),
    Store.getElem?_allocate_of_lt h]

theorem mem_or_get?_of_enter (h : (m.enter bs).store.get? i x = some v) :
    (∃ b ∈ bs, b.2 = v) ∨ m.store.get? i x = some v :=
  (Store.mem_or_get?_of_defineAll h).imp_right Store.get?_of_allocate

end Machine

-- ---------------------------------------------------------------------------
-- Runs in a scope and in a frame
-- ---------------------------------------------------------------------------

namespace Run

variable {α : Type} {x : Run α} {m m' : Machine} {r : Except RuntimeError α}

theorem inScope_apply : inScope bs x m = (x (m.enter bs)).map fun o => (o.1, o.2.leave) := by
  unfold inScope
  cases x (m.enter bs) <;> rfl

theorem inScope_eq_some_iff :
    inScope bs x m = some (r, m') ↔ ∃ m₁, x (m.enter bs) = some (r, m₁) ∧ m₁.leave = m' := by
  rw [inScope_apply, Option.map_eq_some_iff]
  constructor
  · rintro ⟨o, hx, ⟨⟩⟩
    exact ⟨o.2, hx, rfl⟩
  · rintro ⟨m₁, hx, rfl⟩
    exact ⟨_, hx, rfl⟩

theorem inFrame_apply :
    inFrame i x m = (x (m.calling i)).map fun o => (o.1, o.2.returningTo m) := by
  unfold inFrame Machine.calling
  dsimp only
  cases x { m with env := m.env.enclosed i, callDepth := m.callDepth + 1 } <;> rfl

theorem inFrame_eq_some_iff :
    inFrame i x m = some (r, m') ↔
      ∃ m₁, x (m.calling i) = some (r, m₁) ∧ m₁.returningTo m = m' := by
  rw [inFrame_apply, Option.map_eq_some_iff]
  constructor
  · rintro ⟨o, hx, ⟨⟩⟩
    exact ⟨o.2, hx, rfl⟩
  · rintro ⟨m₁, hx, rfl⟩
    exact ⟨_, hx, rfl⟩

theorem inScope_eq_within :
    inScope bs x = Attempt.within (fun m => m.enter bs) (fun _ m => m.leave) x :=
  funext fun _ => inScope_apply

theorem inFrame_eq_within :
    inFrame i x = Attempt.within (fun m => m.calling i) (fun m m₁ => m₁.returningTo m) x :=
  funext fun _ => inFrame_apply

theorem checkCount_eq_ok_iff {expected got line : Nat} {u : Unit} :
    checkCount name expected got line m = some (.ok u, m') ↔ expected = got ∧ m = m' := by
  unfold checkCount
  split
  · next h => simp [h]
  · next h => simp [h, Run.fail]

theorem checkDepth_full {line : Nat} (x : Run α) (h : m.callLimit ≤ m.callDepth) :
    (do Run.checkDepth line; x : Run α) m =
      some (.error ⟨.recursionLimit m.callLimit, some line⟩, m) := by
  simp only [Run.checkDepth, Attempt.bind_apply, Attempt.gets_apply, if_pos h]
  rfl

theorem checkDepth_room {line : Nat} (x : Run α) (h : m.callDepth < m.callLimit) :
    (do Run.checkDepth line; x : Run α) m = x m := by
  simp only [Run.checkDepth, Attempt.bind_apply, Attempt.gets_apply, if_neg (Nat.not_le.2 h)]
  rfl

theorem callBuiltin_apply (f : Native) (vs : List Value) (line : Nat) (m : Machine) :
    callBuiltin f vs line m =
      match m.builtins.find? fun b => b.name == f.name with
      | some b => located line (b.run vs m.moment) m.tick
      | none => fail (.notCallable ValueType.native.name) line m := by
  rw [callBuiltin, Attempt.bind_apply, Attempt.gets_apply]
  dsimp only
  cases m.builtins.find? fun b => b.name == f.name <;> rfl

end Run

end Lox
