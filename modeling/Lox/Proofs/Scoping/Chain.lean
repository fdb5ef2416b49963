-- SUMMARY: The names that are found from a scope on, and that they stay found while a store grows.
import Lox.Proofs.Run.Kept
import Lox.Proofs.Scoping.WellScoped

/-!
## Scope chains

A scope knows names if the store finds all of them from there on. Nothing that a run does takes a
name away from a scope or moves the scope to another parent, so what is known stays known. The
proofs follow the search through the parents and need no picture of the chain as a whole.
-/

namespace Lox

variable {i : ScopeId} {x : String} {v : Value} {Γ : Known} {bs : List (String × Value)}

namespace Store

variable {σ σ' σ'' : Store}

/-- The later store has all scopes, under the same parents, with all their names. -/
def Grown (σ σ' : Store) : Prop :=
  ∀ (i : ScopeId) (s : Scope), σ.scopes[i]? = some s →
    ∃ s', σ'.scopes[i]? = some s' ∧ s'.parent? = s.parent? ∧
      ∀ x, s.binds x = true → s'.binds x = true

/-- All names in `Γ` are found from scope `i` on. -/
structure Knows (σ : Store) (i : ScopeId) (Γ : Known) : Prop where
  lt : i < σ.size
  finds : ∀ x, Γ.has x = true → (σ.holder? x i).isSome = true

-- ---------------------------------------------------------------------------
-- Growth
-- ---------------------------------------------------------------------------

theorem Grown.refl (σ : Store) : Grown σ σ :=
  fun _ s hs => ⟨s, hs, rfl, fun _ => id⟩

theorem Grown.trans (h : Grown σ σ') (h' : Grown σ' σ'') : Grown σ σ'' := by
  intro i s hs
  obtain ⟨s', hs', hparent, hbinds⟩ := h i s hs
  obtain ⟨s'', hs'', hparent', hbinds'⟩ := h' i s' hs'
  exact ⟨s'', hs'', hparent'.trans hparent, fun x hx => hbinds' x (hbinds x hx)⟩

theorem Kept.grown {current : ScopeId} {names : List String} (h : Kept current names σ σ') :
    Grown σ σ' := by
  intro i s hs
  obtain ⟨s', hs', hkept⟩ := h i s hs
  exact ⟨s', hs', hkept.parent?, hkept.binds⟩

theorem grown_enter (m : Machine) (bs : List (String × Value)) :
    Grown m.store (m.enter bs).store :=
  fun _ s hs => ⟨s, by rw [Machine.getElem?_enter (lt_size hs), hs], rfl, fun _ => id⟩

theorem Grown.lt_size (h : Grown σ σ') (hi : i < σ.size) : i < σ'.size := by
  obtain ⟨s', hs', -⟩ := h i _ (Array.getElem?_eq_getElem hi)
  exact Store.lt_size hs'

-- ---------------------------------------------------------------------------
-- The search for a name
-- ---------------------------------------------------------------------------

theorem isSome_holderWithin_succ {s : Scope} {n : Nat} (hs : σ.scopes[i]? = some s) :
    (σ.holderWithin x (n + 1) i).isSome = true ↔
      s.binds x = true ∨ ∃ p, s.parent? = some p ∧ (σ.holderWithin x n p).isSome = true := by
  rw [holderWithin, hs]
  cases hb : s.binds x with
  | true => simp [hb]
  | false => cases hp : s.parent? <;> simp [hb, hp]

/-- A longer search through a larger store finds at least as much. -/
theorem Grown.finds (h : Grown σ σ') {n k : Nat} (hnk : n ≤ k)
    (hx : (σ.holderWithin x n i).isSome = true) : (σ'.holderWithin x k i).isSome = true := by
  induction n generalizing i k with
  | zero => cases hx
  | succ n ih =>
    obtain ⟨k, rfl⟩ := Nat.exists_eq_add_of_le' (Nat.lt_of_lt_of_le (Nat.succ_pos n) hnk)
    cases hs : σ.scopes[i]? with
    | none => simp [holderWithin, hs] at hx
    | some s =>
      obtain ⟨s', hs', hparent, hbinds⟩ := h i s hs
      rw [isSome_holderWithin_succ hs']
      rcases (isSome_holderWithin_succ hs).1 hx with hb | ⟨p, hp, hx⟩
      · exact .inl (hbinds x hb)
      · exact .inr ⟨p, hparent.trans hp, ih (by omega) hx⟩

namespace Knows

theorem grown (h : σ.Knows i Γ) (hσ : Grown σ σ') : σ'.Knows i Γ where
  lt := hσ.lt_size h.lt
  finds x hx := hσ.finds (Nat.le_refl _) (h.finds x hx)

/-- The global scope of a fresh machine knows the names defined in it. -/
theorem of_binds {s : Scope} {names : List String} (hs : σ.scopes[i]? = some s)
    (h : ∀ x ∈ names, s.binds x = true) : σ.Knows i [names] where
  lt := lt_size hs
  finds x hx := by
    rcases Known.has_cons.1 hx with hx | hx
    · exact (isSome_holderWithin_succ hs).2 (.inl (h x hx))
    · cases hx

theorem define (h : σ.Knows i Γ) (x : String) (v : Value) :
    (σ.define i x v).Knows i (Γ.add x) where
  lt := by rw [size_define]; exact h.lt
  finds y hy := by
    rcases Known.has_add.1 hy with rfl | hy
    · obtain ⟨s, hs⟩ : ∃ s, σ.scopes[i]? = some s := ⟨_, Array.getElem?_eq_getElem h.lt⟩
      have hnew : (σ.define i y v).scopes[i]? = some (s.define y v) := by
        rw [getElem?_define, if_pos rfl, hs]
        rfl
      exact (isSome_holderWithin_succ hnew).2 (.inl (Scope.binds_define.2 (.inl rfl)))
    · exact (Kept.define σ i x v).grown.finds (Nat.le_refl _) (h.finds y hy)

end Knows

theorem defineAll_binds {s : Scope} (bs : List (String × Value)) (hs : σ.scopes[i]? = some s) :
    ∃ s', (σ.defineAll i bs).scopes[i]? = some s' ∧ s'.parent? = s.parent? ∧
      ∀ x, x ∈ bs.map Prod.fst ∨ s.binds x = true → s'.binds x = true := by
  induction bs generalizing σ s with
  | nil => exact ⟨s, hs, rfl, by simp⟩
  | cons b bs ih =>
    have hb : (σ.define i b.1 b.2).scopes[i]? = some (s.define b.1 b.2) := by
      rw [getElem?_define, if_pos rfl, hs]
      rfl
    obtain ⟨s', hs', hparent, hbinds⟩ := ih hb
    refine ⟨s', hs', hparent, fun x hx => hbinds x ?_⟩
    rw [Scope.binds_define]
    simpa [or_comm, or_assoc, or_left_comm] using hx

end Store

/-- The machine is at scope `i`, which knows the names in `Γ`. -/
structure Machine.At (m : Machine) (i : ScopeId) (Γ : Known) : Prop where
  current : m.env.current = i
  knows : m.store.Knows i Γ

/-- A scope that is opened knows its bindings and all that was known before. -/
theorem Machine.At.enter {m : Machine} (h : m.At i Γ) (bs : List (String × Value)) :
    (m.enter bs).At m.store.size (bs.map Prod.fst :: Γ) where
  current := rfl
  knows.lt := by
    rw [size_enter]
    exact Nat.lt_succ_self _
  knows.finds x hx := by
    have hnew : (m.store.allocate (some m.env.current)).2.scopes[m.store.size]? =
        some { bindings := [], parent? := some m.env.current } := by
      rw [Store.getElem?_allocate, if_pos rfl]
    obtain ⟨s, hs, hparent, hbinds⟩ := Store.defineAll_binds bs hnew
    rw [Store.holder?, store_enter, Store.isSome_holderWithin_succ hs]
    rcases Known.has_cons.1 hx with hx | hx
    · exact .inl (hbinds x (.inl hx))
    · refine .inr ⟨i, hparent.trans (congrArg some h.current), ?_⟩
      exact (Store.grown_enter m bs).finds (Nat.succ_le_of_lt h.knows.lt) (h.knows.finds x hx)

end Lox
