-- SUMMARY: Attempts compared: with more fuel, and on a state that is seen through a view.
import Lox.Attempt

/-!
## Comparing attempts

An attempt approximates another one if the other ends in the same way wherever it ends. That is what
more fuel does to a computation.

A view changes what is seen of a state and of an error. Two attempts match under a view if the
second does on the seen state what the first does on the state itself, and sees what comes of it.
Sequences of matching attempts match, so for a computation it is enough to look at its steps. Two
computations that need more fuel for some steps than each other converge under a view.
-/

namespace Lox

namespace Attempt

variable {ε σ α β γ δ : Type}

/-- Where an attempt in two parts ends, its first part fails, or its second part ends. -/
theorem bind_eq_some {x : Attempt ε σ α} {f : α → Attempt ε σ β} {s s₂ : σ} {r : Except ε β}
    (h : (x >>= f) s = some (r, s₂)) :
    (∃ e, x s = some (.error e, s₂) ∧ r = .error e) ∨
      ∃ a s₁, x s = some (.ok a, s₁) ∧ f a s₁ = some (r, s₂) := by
  cases r with
  | ok b => exact .inr (bind_eq_ok_iff.1 h)
  | error e => exact (bind_eq_error_iff.1 h).imp_left fun hx => ⟨e, hx, rfl⟩

theorem bind_of_ok {x : Attempt ε σ α} {f : α → Attempt ε σ β} {s s₁ : σ} {a : α}
    (h : x s = some (.ok a, s₁)) : (x >>= f) s = f a s₁ := by
  rw [bind_apply, h]

/-- Runs `x` from another state. Where it ends is put back in place of the state `s` before. -/
def within (enter : σ → σ) (leave : σ → σ → σ) (x : Attempt ε σ α) : Attempt ε σ α :=
  fun s => (x (enter s)).map fun o => (o.1, leave s o.2)

theorem within_eq_some_iff {enter : σ → σ} {leave : σ → σ → σ} {x : Attempt ε σ α} {s : σ}
    {o : Except ε α × σ} :
    within enter leave x s = some o ↔ ∃ s', x (enter s) = some (o.1, s') ∧ leave s s' = o.2 := by
  rw [within, Option.map_eq_some_iff]
  constructor
  · rintro ⟨o, hx, rfl⟩
    exact ⟨o.2, hx, rfl⟩
  · rintro ⟨s', hx, hleave⟩
    exact ⟨_, hx, Prod.ext rfl hleave⟩

-- ---------------------------------------------------------------------------
-- More fuel
-- ---------------------------------------------------------------------------

def Approximates (x y : Attempt ε σ α) : Prop :=
  ∀ s o, x s = some o → y s = some o

namespace Approximates

theorem refl (x : Attempt ε σ α) : Approximates x x :=
  fun _ _ => id

theorem trans {x y z : Attempt ε σ α} (h : Approximates x y) (h' : Approximates y z) :
    Approximates x z :=
  fun s o hx => h' s o (h s o hx)

theorem cutOff (y : Attempt ε σ α) : Approximates Attempt.cutOff y := by
  rintro _ _ ⟨⟩

theorem bind {x y : Attempt ε σ α} {f g : α → Attempt ε σ β} (hx : Approximates x y)
    (hf : ∀ a, Approximates (f a) (g a)) : Approximates (x >>= f) (y >>= g) := by
  rintro s ⟨r, s'⟩ h
  cases r with
  | ok b =>
    obtain ⟨a, s₁, hxs, hfs⟩ := bind_eq_ok_iff.1 h
    exact bind_eq_ok_iff.2 ⟨a, s₁, hx _ _ hxs, hf a _ _ hfs⟩
  | error e =>
    rw [bind_eq_error_iff] at h ⊢
    rcases h with hxs | ⟨a, s₁, hxs, hfs⟩
    · exact .inl (hx _ _ hxs)
    · exact .inr ⟨a, s₁, hx _ _ hxs, hf a _ _ hfs⟩

theorem within {x y : Attempt ε σ α} (enter : σ → σ) (leave : σ → σ → σ)
    (h : Approximates x y) : Approximates (within enter leave x) (within enter leave y) := by
  intro s o hx
  rw [within_eq_some_iff] at hx ⊢
  obtain ⟨s', hx, hleave⟩ := hx
  exact ⟨s', h _ _ hx, hleave⟩

end Approximates

-- ---------------------------------------------------------------------------
-- Views
-- ---------------------------------------------------------------------------

structure View (ε σ : Type) where
  /-- The states that the view is for. -/
  Holds : σ → Prop
  state : σ → σ
  error : ε → ε

/-- An outcome under a view of states, errors and values. -/
def View.result (V : View ε σ) (see : α → β) : Except ε α × σ → Except ε β × σ
  | (.ok a, s) => (.ok (see a), V.state s)
  | (.error e, s) => (.error (V.error e), V.state s)

theorem View.result_eq (V : View ε σ) (see : α → β) (r : Except ε α) (s : σ) :
    V.result see (r, s) =
      (match r with
        | .ok a => .ok (see a)
        | .error e => .error (V.error e), V.state s) := by
  cases r <;> rfl

/-- What `x` does to a state, `y` does to the state as it is seen. -/
def View.Matches (V : View ε σ) (see : α → β) (x : Attempt ε σ α) (y : Attempt ε σ β) : Prop :=
  ∀ s, V.Holds s →
    y (V.state s) = (x s).map (V.result see) ∧ ∀ r s', x s = some (r, s') → V.Holds s'

/-- The view of a state that is entered and of a state that is left. -/
structure View.Frames (V : View ε σ) (enter enter' : σ → σ) (leave leave' : σ → σ → σ) : Prop where
  enter : ∀ s, V.Holds s → V.Holds (enter s) ∧ enter' (V.state s) = V.state (enter s)
  leave : ∀ s s', V.Holds s' →
    V.Holds (leave s s') ∧ leave' (V.state s) (V.state s') = V.state (leave s s')

namespace View.Matches

variable {V : View ε σ} {see : α → β} {see' : γ → δ}

theorem pure (a : α) : V.Matches see (Pure.pure a) (Pure.pure (see a)) := by
  refine fun s hs => ⟨rfl, ?_⟩
  rintro _ _ ⟨⟩
  exact hs

theorem fail (e : ε) : V.Matches see (Attempt.fail e) (Attempt.fail (V.error e)) := by
  refine fun s hs => ⟨rfl, ?_⟩
  rintro _ _ ⟨⟩
  exact hs

theorem cutOff : V.Matches see Attempt.cutOff Attempt.cutOff :=
  fun _ _ => ⟨rfl, by rintro _ _ ⟨⟩⟩

theorem bind {x : Attempt ε σ α} {y : Attempt ε σ β} {f : α → Attempt ε σ γ}
    {g : β → Attempt ε σ δ} (hx : V.Matches see x y)
    (hf : ∀ a, V.Matches see' (f a) (g (see a))) : V.Matches see' (x >>= f) (y >>= g) := by
  intro s hs
  obtain ⟨hy, hholds⟩ := hx s hs
  rw [bind_apply, bind_apply, hy]
  match hxs : x s with
  | none => exact ⟨rfl, by rintro _ _ ⟨⟩⟩
  | some (.error e, s₁) =>
    refine ⟨rfl, ?_⟩
    rintro _ _ ⟨⟩
    exact hholds _ _ hxs
  | some (.ok a, s₁) => exact hf a s₁ (hholds _ _ hxs)

theorem gets {f : σ → α} {g : σ → β} (h : ∀ s, V.Holds s → g (V.state s) = see (f s)) :
    V.Matches see (Attempt.gets f) (Attempt.gets g) := by
  intro s hs
  refine ⟨?_, ?_⟩
  · rw [gets_apply, h s hs]
    rfl
  · rintro _ _ ⟨⟩
    exact hs

theorem tryStep {f : σ → Except ε α × σ} {g : σ → Except ε β × σ}
    (h : ∀ s, V.Holds s → g (V.state s) = V.result see (f s) ∧ V.Holds (f s).2) :
    V.Matches see (Attempt.tryStep f) (Attempt.tryStep g) := by
  intro s hs
  refine ⟨?_, ?_⟩
  · rw [tryStep_apply, (h s hs).1]
    rfl
  · intro r s' hrun
    have hholds := (h s hs).2
    rwa [show f s = (r, s') from Option.some.inj hrun] at hholds

theorem step {f : σ → α × σ} {g : σ → β × σ}
    (h : ∀ s, V.Holds s → g (V.state s) = (see (f s).1, V.state (f s).2) ∧ V.Holds (f s).2) :
    V.Matches see (Attempt.step f) (Attempt.step g) :=
  tryStep (f := fun s => (.ok (f s).1, (f s).2)) (g := fun s => (.ok (g s).1, (g s).2))
    fun s hs => ⟨by rw [(h s hs).1]; rfl, (h s hs).2⟩

theorem within {x : Attempt ε σ α} {y : Attempt ε σ β} {enter enter' : σ → σ}
    {leave leave' : σ → σ → σ} (hV : V.Frames enter enter' leave leave') (h : V.Matches see x y) :
    V.Matches see (within enter leave x) (within enter' leave' y) := by
  intro s hs
  obtain ⟨hs', henter⟩ := hV.enter s hs
  obtain ⟨hy, hholds⟩ := h _ hs'
  rw [Attempt.within, Attempt.within, henter, hy]
  match hx : x (enter s) with
  | none => exact ⟨rfl, by rintro _ _ ⟨⟩⟩
  | some (r, s') =>
    obtain ⟨hs', hleave⟩ := hV.leave s s' (hholds _ _ hx)
    refine ⟨?_, ?_⟩
    · cases r <;> exact congrArg (fun s => some (_, s)) hleave
    · rintro _ _ ⟨⟩
      exact hs'

theorem ite {x x' : Attempt ε σ α} {y y' : Attempt ε σ β} (b : Bool) (h : V.Matches see x y)
    (h' : V.Matches see x' y') :
    V.Matches see (if b then x else x') (if b then y else y') := by
  cases b
  · exact h'
  · exact h

end View.Matches

-- ---------------------------------------------------------------------------
-- Views and fuel
-- ---------------------------------------------------------------------------

/-- With enough fuel the computation ends like this. -/
def Settles (x : Nat → Attempt ε σ α) (s : σ) (o : Except ε α × σ) : Prop :=
  ∃ k, ∀ n, k ≤ n → x n s = some o

namespace Settles

variable {x : Nat → Attempt ε σ α} {f : Nat → α → Attempt ε σ β} {s s₁ : σ}
  {o : Except ε β × σ}

theorem bind_error {e : ε} (h : Settles x s (.error e, s₁)) :
    Settles (fun n => x n >>= f n) s (.error e, s₁) := by
  obtain ⟨k, hk⟩ := h
  exact ⟨k, fun n hn => bind_eq_error_iff.2 (.inl (hk n hn))⟩

theorem bind_ok {a : α} (h : Settles x s (.ok a, s₁)) (hf : Settles (fun n => f n a) s₁ o) :
    Settles (fun n => x n >>= f n) s o := by
  obtain ⟨k, hk⟩ := h
  obtain ⟨j, hj⟩ := hf
  refine ⟨max k j, fun n hn => ?_⟩
  have hx := hk n (Nat.le_trans (Nat.le_max_left k j) hn)
  exact (bind_of_ok hx).trans (hj n (Nat.le_trans (Nat.le_max_right k j) hn))

theorem within {enter : σ → σ} {r : Except ε α} (leave : σ → σ → σ)
    (h : Settles x (enter s) (r, s₁)) :
    Settles (fun n => Attempt.within enter leave (x n)) s (r, leave s s₁) := by
  obtain ⟨k, hk⟩ := h
  exact ⟨k, fun n hn => within_eq_some_iff.2 ⟨s₁, hk n hn, rfl⟩⟩

theorem of_succ {y : Nat → Attempt ε σ β} (h : Settles (fun n => y (n + 1)) s o) :
    Settles y s o := by
  obtain ⟨k, hk⟩ := h
  refine ⟨k + 1, fun n hn => ?_⟩
  obtain ⟨n, rfl⟩ := Nat.exists_eq_add_of_le' (Nat.lt_of_lt_of_le (Nat.succ_pos k) hn)
  exact hk n (Nat.le_of_succ_le_succ hn)

end Settles

/-- Two computations come to the same under a view, though not with the same fuel: where one of them
ends with `n` units, the other ends with enough. -/
structure View.Converges (V : View ε σ) (see : α → β) (n : Nat) (x : Nat → Attempt ε σ α)
    (y : Nat → Attempt ε σ β) : Prop where
  forth : ∀ s, V.Holds s → ∀ o, x n s = some o →
    V.Holds o.2 ∧ Settles y (V.state s) (V.result see o)
  back : ∀ s, V.Holds s → ∀ o', y n (V.state s) = some o' →
    ∃ o, V.Holds o.2 ∧ V.result see o = o' ∧ Settles x s o

namespace View.Converges

variable {V : View ε σ} {see : α → β} {see' : γ → δ} {n : Nat} {x : Nat → Attempt ε σ α}
  {y : Nat → Attempt ε σ β}

theorem zero (hx : x 0 = Attempt.cutOff) (hy : y 0 = Attempt.cutOff) :
    V.Converges see 0 x y where
  forth s _ o h := by
    rw [hx] at h
    cases h
  back s _ o' h := by
    rw [hy] at h
    cases h

/-- Steps that need no fuel. -/
theorem of_matches {x : Attempt ε σ α} {y : Attempt ε σ β} (h : V.Matches see x y) :
    V.Converges see n (fun _ => x) fun _ => y where
  forth s hs o hx := by
    obtain ⟨hy, hholds⟩ := h s hs
    rw [hx] at hy
    exact ⟨hholds _ _ hx, 0, fun _ _ => hy⟩
  back s hs o' hy := by
    obtain ⟨hy', hholds⟩ := h s hs
    obtain ⟨o, hx, ho⟩ := Option.map_eq_some_iff.1 (hy'.symm.trans hy)
    exact ⟨o, hholds _ _ hx, ho, 0, fun _ _ => hx⟩

theorem bind {f : Nat → α → Attempt ε σ γ} {g : Nat → β → Attempt ε σ δ}
    (hx : V.Converges see n x y)
    (hf : ∀ a, V.Converges see' n (fun n => f n a) fun n => g n (see a)) :
    V.Converges see' n (fun n => x n >>= f n) fun n => y n >>= g n where
  forth s hs o h := by
    obtain ⟨r, s₂⟩ := o
    rcases bind_eq_some h with ⟨e, hxs, rfl⟩ | ⟨a, s₁, hxs, hfs⟩
    · obtain ⟨hholds, hy⟩ := hx.forth s hs _ hxs
      exact ⟨hholds, .bind_error hy⟩
    · obtain ⟨hholds, hy⟩ := hx.forth s hs _ hxs
      obtain ⟨hholds, hg⟩ := (hf a).forth s₁ hholds _ hfs
      exact ⟨hholds, .bind_ok hy hg⟩
  back s hs o' h := by
    obtain ⟨r, s₂⟩ := o'
    rcases bind_eq_some h with ⟨e, hys, rfl⟩ | ⟨b, s₁, hys, hgs⟩
    · obtain ⟨⟨_ | _, _⟩, hholds, ⟨⟩, hxs⟩ := hx.back s hs _ hys
      exact ⟨_, hholds, rfl, .bind_error hxs⟩
    · obtain ⟨⟨_ | _, _⟩, hholds, ⟨⟩, hxs⟩ := hx.back s hs _ hys
      obtain ⟨o, hholds, ho, hfs⟩ := (hf _).back _ hholds _ hgs
      exact ⟨o, hholds, ho, .bind_ok hxs hfs⟩

theorem within {enter enter' : σ → σ} {leave leave' : σ → σ → σ}
    (hV : V.Frames enter enter' leave leave') (h : V.Converges see n x y) :
    V.Converges see n (fun n => Attempt.within enter leave (x n))
      fun n => Attempt.within enter' leave' (y n) where
  forth s hs o hx := by
    obtain ⟨r, s₂⟩ := o
    obtain ⟨s', hx, rfl⟩ := within_eq_some_iff.1 hx
    obtain ⟨hs', henter⟩ := hV.enter s hs
    obtain ⟨hholds, hy⟩ := h.forth _ hs' _ hx
    obtain ⟨hholds, hleave⟩ := hV.leave s s' hholds
    rw [← henter] at hy
    rw [V.result_eq, ← hleave]
    exact ⟨hholds, (V.result_eq see r s' ▸ hy).within leave'⟩
  back s hs o' hy := by
    obtain ⟨r', t⟩ := o'
    obtain ⟨t', hy, rfl⟩ := within_eq_some_iff.1 hy
    obtain ⟨hs', henter⟩ := hV.enter s hs
    rw [henter] at hy
    obtain ⟨⟨r, s'⟩, hholds, hresult, hx⟩ := h.back _ hs' _ hy
    obtain ⟨hholds, hleave⟩ := hV.leave s s' hholds
    refine ⟨(r, leave s s'), hholds, ?_, hx.within leave⟩
    rw [V.result_eq] at hresult ⊢
    obtain ⟨rfl, rfl⟩ := Prod.mk.inj hresult
    rw [hleave]

theorem ite {x' : Nat → Attempt ε σ α} {y' : Nat → Attempt ε σ β} (b : Bool)
    (h : V.Converges see n x y) (h' : V.Converges see n x' y') :
    V.Converges see n (fun n => if b then x n else x' n) fun n => if b then y n else y' n := by
  cases b
  · exact h'
  · exact h

/-- A step on both sides that costs a unit. -/
theorem succ (h : V.Converges see n (fun n => x (n + 1)) fun n => y (n + 1)) :
    V.Converges see (n + 1) x y where
  forth s hs o hx := (h.forth s hs o hx).imp_right Settles.of_succ
  back s hs o' hy := by
    obtain ⟨o, hholds, ho, hx⟩ := h.back s hs o' hy
    exact ⟨o, hholds, ho, hx.of_succ⟩

/-- A step on the first side only. -/
theorem succ_left {z : Nat → Attempt ε σ α} (hz : ∀ n, z (n + 1) = x n)
    (h : V.Converges see n x y) (hback : V.Converges see (n + 1) x y) :
    V.Converges see (n + 1) z y where
  forth s hs o hzs := h.forth s hs o (hz n ▸ hzs)
  back s hs o' hy := by
    obtain ⟨o, hholds, ho, k, hx⟩ := hback.back s hs o' hy
    exact ⟨o, hholds, ho, Settles.of_succ ⟨k, fun n hn => (congrFun (hz n) s).trans (hx n hn)⟩⟩

end View.Converges
end Attempt

end Lox
