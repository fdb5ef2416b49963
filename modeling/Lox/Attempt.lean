-- SUMMARY: Computations that work on a state, may fail, and may be cut off.

/-!
## Attempts

An attempt works on a state. It ends with a value or with an error, and the state is kept in both
cases. An attempt that was given too little fuel is cut off: it has no outcome at all, which is not
the same as an error.
-/

namespace Lox

def Attempt (ε σ α : Type) : Type :=
  σ → Option (Except ε α × σ)

namespace Attempt

variable {ε σ α β : Type}

@[inline] protected def pure (a : α) : Attempt ε σ α :=
  fun s => some (.ok a, s)

@[inline] protected def bind (x : Attempt ε σ α) (f : α → Attempt ε σ β) : Attempt ε σ β :=
  fun s =>
    match x s with
    | none => none
    | some (.error e, s) => some (.error e, s)
    | some (.ok a, s) => f a s

instance : Monad (Attempt ε σ) where
  pure := Attempt.pure
  bind := Attempt.bind

/-- Ends with an error. -/
@[inline] def fail (e : ε) : Attempt ε σ α :=
  fun s => some (.error e, s)

/-- Has no outcome. -/
@[inline] def cutOff : Attempt ε σ α :=
  fun _ => none

/-- Reads something off the state. -/
@[inline] def gets (f : σ → α) : Attempt ε σ α :=
  fun s => some (.ok (f s), s)

@[inline] def modify (f : σ → σ) : Attempt ε σ Unit :=
  fun s => some (.ok (), f s)

/-- A step that always has a value. -/
@[inline] def step (f : σ → α × σ) : Attempt ε σ α :=
  fun s => some (.ok (f s).1, (f s).2)

/-- A step that may fail. -/
@[inline] def tryStep (f : σ → Except ε α × σ) : Attempt ε σ α :=
  fun s => some (f s)

/-- A result that does not depend on the state. -/
@[inline] def ofExcept (x : Except ε α) : Attempt ε σ α :=
  fun s => some (x, s)

@[simp] theorem pure_apply (a : α) (s : σ) : (pure a : Attempt ε σ α) s = some (.ok a, s) := rfl

theorem bind_apply (x : Attempt ε σ α) (f : α → Attempt ε σ β) (s : σ) :
    (x >>= f) s =
      match x s with
      | none => none
      | some (.error e, s) => some (.error e, s)
      | some (.ok a, s) => f a s := rfl

@[simp] theorem fail_apply (e : ε) (s : σ) : (fail e : Attempt ε σ α) s = some (.error e, s) := rfl

@[simp] theorem cutOff_apply (s : σ) : (cutOff : Attempt ε σ α) s = none := rfl

@[simp] theorem gets_apply (f : σ → α) (s : σ) :
    (gets f : Attempt ε σ α) s = some (.ok (f s), s) := rfl

@[simp] theorem modify_apply (f : σ → σ) (s : σ) :
    (modify f : Attempt ε σ Unit) s = some (.ok (), f s) := rfl

@[simp] theorem step_apply (f : σ → α × σ) (s : σ) :
    (step f : Attempt ε σ α) s = some (.ok (f s).1, (f s).2) := rfl

@[simp] theorem tryStep_apply (f : σ → Except ε α × σ) (s : σ) :
    (tryStep f : Attempt ε σ α) s = some (f s) := rfl

@[simp] theorem ofExcept_apply (x : Except ε α) (s : σ) :
    (ofExcept x : Attempt ε σ α) s = some (x, s) := rfl

/-- An attempt in two parts ends with a value if both do. -/
theorem bind_eq_ok_iff {x : Attempt ε σ α} {f : α → Attempt ε σ β} {s s₂ : σ} {b : β} :
    (x >>= f) s = some (.ok b, s₂) ↔
      ∃ a s₁, x s = some (.ok a, s₁) ∧ f a s₁ = some (.ok b, s₂) := by
  rw [bind_apply]
  constructor
  · intro h
    match hx : x s with
    | none => rw [hx] at h; cases h
    | some (.error e, s₁) => rw [hx] at h; cases h
    | some (.ok a, s₁) => rw [hx] at h; exact ⟨a, s₁, rfl, h⟩
  · rintro ⟨a, s₁, hx, hf⟩
    rw [hx]
    exact hf

/-- It ends with an error if the first part does, or the second after it. -/
theorem bind_eq_error_iff {x : Attempt ε σ α} {f : α → Attempt ε σ β} {s s₂ : σ} {e : ε} :
    (x >>= f) s = some (.error e, s₂) ↔
      x s = some (.error e, s₂) ∨
        ∃ a s₁, x s = some (.ok a, s₁) ∧ f a s₁ = some (.error e, s₂) := by
  rw [bind_apply]
  constructor
  · intro h
    match hx : x s with
    | none => rw [hx] at h; cases h
    | some (.error e', s₁) => rw [hx] at h; cases h; exact .inl rfl
    | some (.ok a, s₁) => rw [hx] at h; exact .inr ⟨a, s₁, rfl, h⟩
  · rintro (hx | ⟨a, s₁, hx, hf⟩)
    · rw [hx]
    · rw [hx]
      exact hf

end Attempt

end Lox
