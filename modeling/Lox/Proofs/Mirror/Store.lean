-- SUMMARY: Stores that are the same where their scopes correspond.
import Lox.Proofs.Mirror.Pairs
import Lox.Proofs.Store.Chain

/-!
## Stores that mirror each other

Two stores mirror each other if scopes whose numbers correspond bind the same names to pairs, and
have parents that correspond, or do so but for empty scopes between them on the left. Other scopes
that correspond to none may be anything. A name is searched alike on both sides, and what is defined
on both sides or opened on both sides may differ in numbers only.
-/

namespace Lox

namespace Store

variable {ρ ρ' : Correspondence} {σ τ : Store} {c c' : Nat} {g i j : ScopeId} {x : String}
  {v w : Value} {bs cs : List (String × Value)}

/-- From scope `i` empty scopes that correspond to none, if any, lead up to one that corresponds to
`j`. -/
inductive Leads (ρ : Correspondence) (σ : Store) : ScopeId → ScopeId → Prop where
  | here {i j : ScopeId} (hi : i < σ.size) (h : ρ.scope.rel i j) : Leads ρ σ i j
  | up {i p j : ScopeId} (hnone : ∀ j, ¬ ρ.scope.rel i j)
      (hs : σ.scopes[i]? = some { bindings := [], parent? := some p }) (h : Leads ρ σ p j) :
      Leads ρ σ i j

namespace Leads

theorem lt_size (h : σ.Leads ρ i j) : i < σ.size := by
  cases h with
  | here hi => exact hi
  | up _ hs => exact Store.lt_size hs

/-- Parents are older. -/
theorem exists_le (h : σ.Leads ρ i j) (hσ : σ.Hung g) : ∃ i' ≤ i, ρ.scope.rel i' j := by
  induction h with
  | here _ h => exact ⟨_, Nat.le_refl _, h⟩
  | up _ hs _ ih =>
    obtain ⟨i', hle, h⟩ := ih
    exact ⟨i', Nat.le_trans hle (Nat.le_of_lt (hσ.older hs rfl)), h⟩

/-- What corresponds to none stays as it is, and the rest keeps its place. -/
theorem mono {σ' : Store} (h : σ.Leads ρ i j) (hsize : σ.size ≤ σ'.size)
    (hρ : ∀ {i j}, i < σ.size → (ρ'.scope.rel i j ↔ ρ.scope.rel i j))
    (hsame : ∀ {i}, i < σ.size → (∀ j, ¬ ρ.scope.rel i j) → σ'.scopes[i]? = σ.scopes[i]?) :
    σ'.Leads ρ' i j := by
  induction h with
  | here hi h => exact .here (Nat.lt_of_lt_of_le hi hsize) ((hρ hi).2 h)
  | up hnone hs _ ih =>
    have hi := Store.lt_size hs
    exact .up (fun j h => hnone j ((hρ hi).1 h)) ((hsame hi hnone).trans hs) ih

theorem define (h : σ.Leads ρ i j) {k l : ScopeId} (hkl : ρ.scope.rel k l) :
    (σ.define k x v).Leads ρ i j := by
  refine h.mono (Nat.le_of_eq size_define.symm) (fun _ => Iff.rfl) fun _ hnone => ?_
  refine getElem?_define_of_ne ?_
  rintro rfl
  exact hnone _ hkl

theorem allocate (h : σ.Leads ρ i j) (parent? : Option ScopeId) :
    (σ.allocate parent?).2.Leads ρ i j :=
  h.mono (size_allocate _ ▸ Nat.le_succ _) (fun _ => Iff.rfl) fun hi _ =>
    getElem?_allocate_of_lt hi

end Leads

/-- The scopes of `τ` that correspond to scopes of `σ` are the same as those but for numbers, and
so will be the scopes that are opened next. There are `c` functions and natives on the left. -/
structure Mirrors (ρ : Correspondence) (c : Nat) (σ τ : Store) : Prop where
  scopes : ∀ {i j}, (ρ.below σ.size c).scope.rel i j →
    ∃ s t, σ.scopes[i]? = some s ∧ τ.scopes[j]? = some t ∧
      s.Pairs (ρ.below σ.size c) (σ.Leads ρ) t
  next : ∀ k, ρ.scope.rel (σ.size + k) (τ.size + k)

namespace Mirrors

theorem more (h : Mirrors ρ c σ τ) (hc : c ≤ c') : Mirrors ρ c' σ τ where
  scopes hij := by
    obtain ⟨s, t, hs, ht, hst⟩ := h.scopes hij
    exact ⟨s, t, hs, ht, hst.mono (ρ.below_within (Nat.le_refl _) hc) fun _ _ => id⟩
  next := h.next

theorem get? (h : Mirrors ρ c σ τ) (hij : (ρ.below σ.size c).scope.rel i j) (x : String) :
    Option.Rel (Value.Pairs (ρ.below σ.size c)) (σ.get? i x) (τ.get? j x) := by
  obtain ⟨s, t, hs, ht, hst⟩ := h.scopes hij
  rw [Store.get?, Store.get?, hs, ht]
  exact hst.values x

/-- Two searches of any length that get to the end of the chain. -/
theorem holderWithin (h : Mirrors ρ c σ τ) (hσ : σ.Hung g) {n k : Nat}
    (hij : σ.Leads ρ i j) (hn : i < n) (hk : j < k) :
    Option.Rel (ρ.below σ.size c).scope.rel (σ.holderWithin x n i) (τ.holderWithin x k j) := by
  induction n generalizing i j k with
  | zero => exact absurd hn (Nat.not_lt_zero i)
  | succ n ih =>
    cases hij with
    | up _ hs hp =>
      -- an empty scope binds no name, and the search on the right does not move
      have hpi := hσ.older hs rfl
      rw [Store.holderWithin, hs]
      exact ih hp (Nat.lt_of_lt_of_le hpi (Nat.le_of_lt_succ hn)) hk
    | here hi hij =>
      cases k with
      | zero => exact absurd hk (Nat.not_lt_zero j)
      | succ k =>
        obtain ⟨s, t, hs, ht, hst⟩ := h.scopes ⟨hi, hij⟩
        simp only [Store.holderWithin, hs, ht, hst.binds_eq x]
        split
        · exact .some ⟨hi, hij⟩
        · rcases Option.none_or_some_of_rel hst.parent? with ⟨hp, hq⟩ | ⟨p, q, hp, hq, hpq⟩
          · rw [hp, hq]
            exact .none
          · have hpi : p < i := hσ.older hs hp
            obtain ⟨p', hle, hp'q⟩ := hpq.exists_le hσ
            have hqj : q < j := (ρ.scope.lt_iff hp'q hij).1 (Nat.lt_of_le_of_lt hle hpi)
            rw [hp, hq]
            exact ih hpq (Nat.lt_of_lt_of_le hpi (Nat.le_of_lt_succ hn))
              (Nat.lt_of_lt_of_le hqj (Nat.le_of_lt_succ hk))

theorem lookup (h : Mirrors ρ c σ τ) (hσ : σ.Hung g) (hij : σ.Leads ρ i j) (x : String) :
    Option.Rel (Value.Pairs (ρ.below σ.size c)) (σ.lookup i x) (τ.lookup j x) := by
  unfold Store.lookup
  have hholder := h.holderWithin (x := x) hσ hij (Nat.lt_succ_self i) (Nat.lt_succ_self j)
  unfold Store.holder?
  match σ.holderWithin x (i + 1) i, τ.holderWithin x (j + 1) j, hholder with
  | _, _, .some hij => exact h.get? hij x
  | _, _, .none => exact .none

theorem define (h : Mirrors ρ c σ τ) (hij : (ρ.below σ.size c).scope.rel i j)
    (hv : v.Pairs (ρ.below σ.size c) w) :
    Mirrors ρ c (σ.define i x v) (τ.define j x w) where
  scopes {i' j'} hij' := by
    rw [size_define] at hij' ⊢
    obtain ⟨s, t, hs, ht, hst⟩ := h.scopes hij'
    rw [getElem?_define, getElem?_define, hs, ht]
    by_cases hi : i = i'
    · rw [if_pos hi, if_pos ((ρ.scope.eq_iff hij.2 hij'.2).1 hi)]
      exact ⟨_, _, rfl, rfl, (hst.define x hv).mono .refl fun _ _ h => h.define hij.2⟩
    · rw [if_neg hi, if_neg fun hj => hi ((ρ.scope.eq_iff hij.2 hij'.2).2 hj)]
      exact ⟨s, t, rfl, rfl, hst.mono .refl fun _ _ h => h.define hij.2⟩
  next k := by
    rw [size_define, size_define]
    exact h.next k

theorem defineAll (h : Mirrors ρ c σ τ) (hij : (ρ.below σ.size c).scope.rel i j)
    (hbs : PairsAll (ρ.below σ.size c) bs cs) :
    Mirrors ρ c (σ.defineAll i bs) (τ.defineAll j cs) := by
  induction bs generalizing σ τ cs with
  | nil =>
    cases hbs
    exact h
  | cons b bs ih =>
    cases hbs with
    | cons hb hbs =>
      obtain ⟨hname, hv⟩ := hb
      have hdefine := h.define (x := b.1) hij hv
      rw [defineAll_cons, defineAll_cons, ← hname]
      exact ih hdefine (by rwa [size_define]) (by rwa [size_define])

theorem allocate (h : Mirrors ρ c σ τ) (hij : σ.Leads ρ i j) :
    Mirrors ρ c (σ.allocate (some i)).2 (τ.allocate (some j)).2 where
  scopes {i' j'} hij' := by
    have hmore : (ρ.below σ.size c).Within (ρ.below (σ.allocate (some i)).2.size c) :=
      ρ.below_within (size_allocate _ ▸ Nat.le_succ _) (Nat.le_refl c)
    have hnew : i' = σ.size ↔ j' = τ.size := ρ.scope.eq_iff hij'.2 (h.next 0)
    rw [getElem?_allocate, getElem?_allocate]
    by_cases hi : i' = σ.size
    · rw [if_pos hi, if_pos (hnew.1 hi)]
      exact ⟨_, _, rfl, rfl, .opened (hij.allocate _)⟩
    · rw [if_neg hi, if_neg (hi ∘ hnew.2)]
      have hle : i' < (σ.allocate (some i)).2.size := hij'.1
      rw [size_allocate] at hle
      have hlt : i' < σ.size := Nat.lt_of_le_of_ne (Nat.le_of_lt_succ hle) hi
      obtain ⟨s, t, hs, ht, hst⟩ := h.scopes ⟨hlt, hij'.2⟩
      exact ⟨s, t, hs, ht, hst.mono hmore fun _ _ h => h.allocate _⟩
  next k := by
    rw [size_allocate, size_allocate, Nat.succ_add_eq_add_succ, Nat.succ_add_eq_add_succ]
    exact h.next (k + 1)

end Mirrors
end Store

end Lox
