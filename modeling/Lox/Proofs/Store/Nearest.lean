-- SUMMARY: The binding of a name that is nearest to a scope, and which reads a write changes.
import Lox.Proofs.Store.Chain

/-!
## Nearest bindings

Seen from a scope, a name means the binding of it that is nearest on the way through the parents.
Where parents are older than their children, this is the binding that a search finds. So it tells
which reads a write changes: a definition those from the scopes whose way to it is clear of other
bindings, an assignment those from the scopes that have the same nearest binding.
-/

namespace Lox

namespace Store

variable {σ σ' : Store} {i j k : ScopeId} {x y : String} {v w : Value} {is : List ScopeId}

/-- The parents of scope `i` lead to scope `j`, and no scope before `j` binds the name. -/
inductive Clear (σ : Store) (x : String) : ScopeId → ScopeId → Prop where
  | here (i : ScopeId) : Clear σ x i i
  | up {i p j : ScopeId} (hfree : σ.get? i x = none) (hp : σ.parent? i = some p)
      (h : Clear σ x p j) : Clear σ x i j

/-- Scope `j` has the binding of the name that is nearest to scope `i`. -/
structure Nearest (σ : Store) (x : String) (i j : ScopeId) : Prop where
  clear : σ.Clear x i j
  bound : (σ.get? j x).isSome = true

/-- The name means the same binding, seen from both scopes. -/
def SameCell (σ : Store) (x : String) (i j : ScopeId) : Prop :=
  ∃ k, σ.Nearest x i k ∧ σ.Nearest x j k

theorem parent?_eq {s : Scope} (hs : σ.scopes[i]? = some s) : σ.parent? i = s.parent? := by
  rw [parent?, hs]
  rfl

namespace Ordered

-- ---------------------------------------------------------------------------
-- Operations
-- ---------------------------------------------------------------------------

theorem empty : Store.empty.Ordered where
  older hp := by cases hp

theorem define (hσ : σ.Ordered) : (σ.define i x v).Ordered where
  older hp := hσ.older (parent?_define ▸ hp)

theorem allocate (hσ : σ.Ordered) {p? : Option ScopeId} (hlt : ∀ p ∈ p?, p < σ.size) :
    (σ.allocate p?).2.Ordered where
  older {i p} hp := by
    rw [parent?_allocate] at hp
    split at hp
    · next hi => exact hi ▸ hlt p hp
    · exact hσ.older hp

-- ---------------------------------------------------------------------------
-- Searches
-- ---------------------------------------------------------------------------

/-- No search is cut short that may look into as many scopes as are older. -/
theorem holderWithin_eq (hσ : σ.Ordered) {n k : Nat} (hn : i < n) (hk : i < k) :
    σ.holderWithin x n i = σ.holderWithin x k i := by
  induction n generalizing i k with
  | zero => exact absurd hn (Nat.not_lt_zero i)
  | succ n ih =>
    cases k with
    | zero => exact absurd hk (Nat.not_lt_zero i)
    | succ k =>
      unfold holderWithin
      cases hs : σ.scopes[i]? with
      | none => rfl
      | some s =>
        cases hp : s.parent? with
        | none => simp only [hp]
        | some p =>
          have hlt : p < i := hσ.older ((parent?_eq hs).trans hp)
          have hrest : σ.holderWithin x n p = σ.holderWithin x k p :=
            ih (Nat.lt_of_lt_of_le hlt (Nat.le_of_lt_succ hn))
              (Nat.lt_of_lt_of_le hlt (Nat.le_of_lt_succ hk))
          simp only [hp, hrest]

/-- A search looks into the scope itself, and goes on from its parent. -/
theorem holder?_eq (hσ : σ.Ordered) (x : String) (i : ScopeId) :
    σ.holder? x i = if (σ.get? i x).isSome then some i else (σ.parent? i).bind (σ.holder? x) := by
  rw [holder?, holderWithin]
  cases hs : σ.scopes[i]? with
  | none => simp [get?, parent?, hs]
  | some s =>
    rw [get?_isSome hs, parent?_eq hs]
    cases hp : s.parent? with
    | none => simp only [hp, Option.bind_none]
    | some p =>
      have hlt : p < i := hσ.older ((parent?_eq hs).trans hp)
      have hrest : σ.holderWithin x i p = σ.holder? x p :=
        hσ.holderWithin_eq hlt (Nat.lt_succ_self p)
      simp only [hp, hrest, Option.bind_some]

/-- What a search finds is the nearest binding. -/
theorem holder?_eq_some_iff (hσ : σ.Ordered) : σ.holder? x i = some j ↔ σ.Nearest x i j := by
  constructor
  · intro h
    induction i using Nat.strongRecOn with
    | ind i ih =>
      rw [hσ.holder?_eq] at h
      split at h
      · next hbound =>
        obtain rfl := Option.some.inj h
        exact ⟨.here _, hbound⟩
      · next hfree =>
        obtain ⟨p, hp, h⟩ := Option.bind_eq_some_iff.1 h
        have hnearest := ih p (hσ.older hp) h
        exact ⟨.up (by simpa using hfree) hp hnearest.clear, hnearest.bound⟩
  · rintro ⟨hclear, hbound⟩
    induction hclear with
    | here i => rw [hσ.holder?_eq, if_pos hbound]
    | up hfree hp _ ih => rw [hσ.holder?_eq, hfree, hp]; exact ih hbound

theorem nearest_unique (hσ : σ.Ordered) (h : σ.Nearest x i j) (h' : σ.Nearest x i k) : j = k :=
  Option.some.inj ((hσ.holder?_eq_some_iff.2 h).symm.trans (hσ.holder?_eq_some_iff.2 h'))

theorem lookup_eq_some_iff (hσ : σ.Ordered) :
    σ.lookup i x = some v ↔ ∃ j, σ.Nearest x i j ∧ σ.get? j x = some v := by
  simp only [lookup, Option.bind_eq_some_iff, hσ.holder?_eq_some_iff]

/-- The value of a name is that of its binding in the scope itself, or else what the parent sees. -/
theorem lookup_eq (hσ : σ.Ordered) (i : ScopeId) (x : String) :
    σ.lookup i x = (σ.get? i x).or ((σ.parent? i).bind fun p => σ.lookup p x) := by
  rw [lookup, hσ.holder?_eq]
  cases h : σ.get? i x with
  | some v => simp [h]
  | none =>
    cases σ.parent? i with
    | none => rfl
    | some p => rfl

end Ordered

/-- A name is searched along the chain, from the nearest scope to the last. -/
theorem Chain.lookup_eq_findSome? (h : σ.Chain i is) (hσ : σ.Ordered) (x : String) :
    σ.lookup i x = is.findSome? fun j => σ.get? j x := by
  induction h with
  | root hs hp =>
    rw [hσ.lookup_eq, parent?_eq hs, hp, List.findSome?_singleton]
    exact Option.or_none
  | link hs hp h ih =>
    rw [hσ.lookup_eq, parent?_eq hs, hp, Option.bind_some, ih, List.findSome?_cons]
    cases σ.get? _ x <;> rfl

-- ---------------------------------------------------------------------------
-- Definitions
-- ---------------------------------------------------------------------------

theorem Clear.nearest_define (h : σ.Clear x i j) (hj : j < σ.size) (v : Value) :
    (σ.define j x v).Nearest x i j := by
  have hself : (σ.define j x v).Nearest x j j :=
    ⟨.here j, by rw [get?_define_self hj]; rfl⟩
  induction h with
  | here => exact hself
  | @up i p j hfree hp _ ih =>
    by_cases hij : j = i
    · rw [hij] at hself ⊢
      exact hself
    · have hnearest := ih hj hself
      rw [← get?_define_of_ne (.inl hij)] at hfree
      exact ⟨.up hfree (parent?_define.trans hp) hnearest.clear, hnearest.bound⟩

/-- A definition is read from every scope whose way to it is clear. -/
theorem Clear.lookup_define (h : σ.Clear x i j) (hσ : σ.Ordered) (hj : j < σ.size) (v : Value) :
    (σ.define j x v).lookup i x = some v :=
  hσ.define.lookup_eq_some_iff.2 ⟨j, h.nearest_define hj v, get?_define_self hj⟩

/-- No other reading changes with a definition. -/
theorem lookup_define_of_not_clear (hσ : σ.Ordered) (h : ¬ (y = x ∧ σ.Clear x i j)) (v : Value) :
    (σ.define j x v).lookup i y = σ.lookup i y := by
  induction i using Nat.strongRecOn with
  | ind i ih =>
    have hother : j ≠ i ∨ y ≠ x := by
      rw [← Decidable.not_and_iff_not_or_not]
      rintro ⟨rfl, hyx⟩
      exact h ⟨hyx, .here j⟩
    rw [hσ.define.lookup_eq, hσ.lookup_eq, get?_define_of_ne hother, parent?_define]
    cases hget : σ.get? i y with
    | some w => rfl
    | none =>
      cases hp : σ.parent? i with
      | none => rfl
      | some p =>
        refine ih p (hσ.older hp) ?_
        rintro ⟨rfl, hclear⟩
        exact h ⟨rfl, .up hget hp hclear⟩

-- ---------------------------------------------------------------------------
-- Assignments
-- ---------------------------------------------------------------------------

/-- An assignment is a definition in the scope with the nearest binding. -/
theorem assign_eq_some_iff (hσ : σ.Ordered) :
    σ.assign i x v = some σ' ↔ ∃ j, σ.Nearest x i j ∧ σ.define j x v = σ' := by
  simp only [assign, Option.map_eq_some_iff, hσ.holder?_eq_some_iff]

theorem Nearest.lt_size (h : σ.Nearest x i j) : j < σ.size := by
  obtain ⟨v, hv⟩ := Option.isSome_iff_exists.1 h.bound
  obtain ⟨s, hs, -⟩ := Option.bind_eq_some_iff.1 hv
  exact Store.lt_size hs

/-- An assignment is read from the scopes that have the same nearest binding. -/
theorem lookup_assign_of_same (hσ : σ.Ordered) (h : σ.assign i x v = some σ')
    (hsame : σ.SameCell x i j) : σ'.lookup j x = some v := by
  obtain ⟨k, hk, rfl⟩ := (assign_eq_some_iff hσ).1 h
  obtain ⟨k', hi, hj⟩ := hsame
  obtain rfl := hσ.nearest_unique hk hi
  exact hj.clear.lookup_define hσ hi.lt_size v

/-- No other reading changes with an assignment. -/
theorem lookup_assign_of_other (hσ : σ.Ordered) (h : σ.assign i x v = some σ')
    (hother : ¬ (y = x ∧ σ.SameCell x i j)) : σ'.lookup j y = σ.lookup j y := by
  obtain ⟨k, hk, rfl⟩ := (assign_eq_some_iff hσ).1 h
  refine lookup_define_of_not_clear hσ ?_ v
  rintro ⟨rfl, hclear⟩
  exact hother ⟨rfl, k, hk, hclear, hk.bound⟩

end Store

end Lox
