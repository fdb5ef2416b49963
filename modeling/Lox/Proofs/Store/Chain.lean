-- SUMMARY: Chains of scopes: from a scope through its parents to the global scope.
import Mathlib.Data.List.Chain
import Lox.Proofs.Store.Operations

/-!
## Chains of scopes

A store hangs at its global scope if the parents of all other scopes are older than they are. Then
the chain of every scope ends in the global scope and has no scope twice, and it is this chain that
a search for a name goes along: it looks into no scope twice, and ends where the name is bound or
behind the global scope (`Chain.holder?`).
-/

namespace Lox

namespace Store

variable {σ : Store} {g i j : ScopeId} {x : String} {v : Value} {is : List ScopeId}
  {bs : List (String × Value)}

-- ---------------------------------------------------------------------------
-- Stores that hang at the global scope
-- ---------------------------------------------------------------------------

/-- Every scope has an older one for a parent, but for the global scope, which has none. -/
structure Hung (σ : Store) (g : ScopeId) : Prop where
  root : ∀ {i : ScopeId} {s : Scope}, σ.scopes[i]? = some s → s.parent? = none → i = g
  older : ∀ {i p : ScopeId} {s : Scope}, σ.scopes[i]? = some s → s.parent? = some p → p < i

/-- The parents of all scopes are older than they are. -/
structure Ordered (σ : Store) : Prop where
  older : ∀ {i p : ScopeId}, σ.parent? i = some p → p < i

namespace Hung

theorem ordered (h : σ.Hung g) : σ.Ordered where
  older hp := by
    obtain ⟨s, hs, hp⟩ := Option.bind_eq_some_iff.1 hp
    exact h.older hs hp

theorem define (h : σ.Hung g) : (σ.define i x v).Hung g := by
  have hparent {j : ScopeId} {s' : Scope} (hs : (σ.define i x v).scopes[j]? = some s') :
      ∃ s, σ.scopes[j]? = some s ∧ s'.parent? = s.parent? := by
    rw [getElem?_define] at hs
    split at hs
    · obtain ⟨s, hold, rfl⟩ := Option.map_eq_some_iff.1 hs
      exact ⟨s, hold, rfl⟩
    · exact ⟨s', hs, rfl⟩
  constructor
  · intro j s' hs hp
    obtain ⟨s, hs, hsame⟩ := hparent hs
    exact h.root hs (hsame.symm.trans hp)
  · intro j p s' hs hp
    obtain ⟨s, hs, hsame⟩ := hparent hs
    exact h.older hs (hsame.symm.trans hp)

theorem defineAll (h : σ.Hung g) : (σ.defineAll i bs).Hung g := by
  induction bs generalizing σ with
  | nil => exact h
  | cons b bs ih => exact ih h.define

theorem allocate (h : σ.Hung g) (hi : i < σ.size) : (σ.allocate (some i)).2.Hung g := by
  constructor
  · intro j s hs hp
    rw [getElem?_allocate] at hs
    split at hs
    · cases hs; cases hp
    · exact h.root hs hp
  · intro j p s hs hp
    rw [getElem?_allocate] at hs
    split at hs
    · next hj =>
      cases hs
      cases hp
      exact hj ▸ hi
    · exact h.older hs hp

end Hung

-- ---------------------------------------------------------------------------
-- Chains
-- ---------------------------------------------------------------------------

/-- The scopes `is` are scope `i`, its parent, the parent of that, and so on to one without. -/
inductive Chain (σ : Store) : ScopeId → List ScopeId → Prop where
  | root {i s} (hs : σ.scopes[i]? = some s) (hp : s.parent? = none) : Chain σ i [i]
  | link {i p is s} (hs : σ.scopes[i]? = some s) (hp : s.parent? = some p) (h : Chain σ p is) :
      Chain σ i (i :: is)

theorem Ordered.exists_chain (hσ : σ.Ordered) (hi : i < σ.size) : ∃ is, σ.Chain i is := by
  induction i using Nat.strongRecOn with
  | ind i ih =>
    have hs : σ.scopes[i]? = some σ.scopes[i] := Array.getElem?_eq_getElem hi
    cases hp : σ.scopes[i].parent? with
    | none => exact ⟨_, .root hs hp⟩
    | some p =>
      have hlt : p < i := hσ.older (Option.bind_eq_some_iff.2 ⟨_, hs, hp⟩)
      obtain ⟨is, hchain⟩ := ih p hlt (Nat.lt_trans hlt hi)
      exact ⟨_, .link hs hp hchain⟩

/-- A path through parents stays in the store. -/
theorem Ordered.lt_size_of_path (hσ : σ.Ordered) (hi : i < σ.size)
    (h : (i :: is).IsChain fun i p => σ.parent? i = some p) : ∀ j ∈ i :: is, j < σ.size := by
  induction is generalizing i with
  | nil => exact List.forall_mem_singleton.2 hi
  | cons p is ih =>
    obtain ⟨hp, hrest⟩ := List.isChain_cons_cons.1 h
    exact List.forall_mem_cons.2 ⟨hi, ih (Nat.lt_trans (hσ.older hp) hi) hrest⟩

theorem Hung.exists_chain (hσ : σ.Hung g) (hi : i < σ.size) : ∃ is, σ.Chain i is :=
  hσ.ordered.exists_chain hi

namespace Chain

theorem getLast? (h : σ.Chain i is) (hσ : σ.Hung g) : is.getLast? = some g := by
  induction h with
  | root hs hp => rw [hσ.root hs hp]; rfl
  | link hs hp h ih => cases h <;> exact ih

theorem le (h : σ.Chain i is) (hσ : σ.Hung g) : ∀ j ∈ is, j ≤ i := by
  induction h with
  | root => simp
  | link hs hp h ih =>
    have hlt := hσ.older hs hp
    simp only [List.mem_cons, forall_eq_or_imp, Nat.le_refl, true_and]
    exact fun j hj => Nat.le_trans (ih j hj) (Nat.le_of_lt hlt)

/-- No scope is on a chain twice, as the chain goes on to older ones. -/
theorem nodup (h : σ.Chain i is) (hσ : σ.Hung g) : is.Nodup := by
  induction h with
  | root => simp
  | link hs hp h ih =>
    refine List.nodup_cons.2 ⟨fun hi => ?_, ih⟩
    exact Nat.lt_irrefl _ (Nat.lt_of_lt_of_le (hσ.older hs hp) (h.le hσ _ hi))

end Chain

-- ---------------------------------------------------------------------------
-- Searches
-- ---------------------------------------------------------------------------

/-- The scopes that a search for the name looks into, one after the other. An assignment has all of
them open when it gets to the last one. -/
def searched (σ : Store) (x : String) : Nat → ScopeId → List ScopeId
  | 0, _ => []
  | n + 1, i =>
    match σ.scopes[i]? with
    | none => []
    | some s =>
      i :: if s.binds x then [] else
        match s.parent? with
        | none => []
        | some p => searched σ x n p

theorem get?_isSome {s : Scope} (hs : σ.scopes[i]? = some s) :
    (σ.get? i x).isSome = s.binds x := by
  rw [get?, hs]
  rfl

/-- A search finds what it looks for in the last scope that it looks into, or not at all. -/
theorem holderWithin_eq_find? (n : Nat) :
    σ.holderWithin x n i = (σ.searched x n i).find? fun j => (σ.get? j x).isSome := by
  induction n generalizing i with
  | zero => rfl
  | succ n ih =>
    unfold holderWithin searched
    cases hs : σ.scopes[i]? with
    | none => rfl
    | some s =>
      simp only [List.find?_cons, get?_isSome hs]
      cases s.binds x with
      | true => rfl
      | false => cases s.parent? with
        | none => rfl
        | some p => exact ih

namespace Chain

/-- No search leaves the chain. -/
theorem searched_prefix (h : σ.Chain i is) (x : String) (n : Nat) : σ.searched x n i <+: is := by
  induction h generalizing n with
  | root hs hp =>
    cases n with
    | zero => exact List.nil_prefix
    | succ n => simp [searched, hs, hp]
  | link hs hp h ih =>
    cases n with
    | zero => exact List.nil_prefix
    | succ n =>
      simp only [searched, hs, hp]
      split
      · simp
      · exact (List.prefix_cons_inj _).2 (ih n)

theorem searched_nodup (h : σ.Chain i is) (hσ : σ.Hung g) (x : String) (n : Nat) :
    (σ.searched x n i).Nodup :=
  (h.nodup hσ).sublist (h.searched_prefix x n).sublist

/-- A search is never cut short: it finds the nearest scope of the whole chain. -/
theorem holder? (h : σ.Chain i is) (hσ : σ.Hung g) (x : String) :
    σ.holder? x i = is.find? fun j => (σ.get? j x).isSome := by
  have hlong (n : Nat) (hn : i < n) :
      σ.holderWithin x n i = is.find? fun j => (σ.get? j x).isSome := by
    induction h generalizing n with
    | root hs hp =>
      cases n with
      | zero => exact absurd hn (Nat.not_lt_zero _)
      | succ n =>
        simp only [holderWithin, hs, hp, List.find?_cons, get?_isSome hs]
        split <;> simp [*]
    | link hs hp h ih =>
      cases n with
      | zero => exact absurd hn (Nat.not_lt_zero _)
      | succ n =>
        have hrest := ih n (Nat.lt_of_lt_of_le (hσ.older hs hp) (Nat.le_of_lt_succ hn))
        simp only [holderWithin, hs, hp, List.find?_cons, get?_isSome hs, hrest]
        split <;> simp [*]
  exact hlong _ (Nat.lt_succ_self i)

/-- A global is found from everywhere, unless a scope of the chain has the same name. -/
theorem lookup_global (h : σ.Chain i is) (hσ : σ.Hung g)
    (hx : ∀ j ∈ is, j ≠ g → σ.get? j x = none) : σ.lookup i x = σ.get? g x := by
  rw [Store.lookup, h.holder? hσ]
  cases hfind : is.find? fun j => (σ.get? j x).isSome with
  | none =>
    have hg := List.find?_eq_none.1 hfind g (List.mem_of_getLast? (h.getLast? hσ))
    exact (Option.not_isSome_iff_eq_none.1 hg).symm
  | some j =>
    have hsome := List.find?_some hfind
    have hjg : j = g := Classical.byContradiction fun hne => by
      rw [hx j (List.mem_of_find?_eq_some hfind) hne] at hsome
      cases hsome
    rw [Option.bind_some, hjg]

end Chain
end Store

end Lox
