-- SUMMARY: A loop with a scope around every turn goes the same way as one without.
import Lox.Proofs.ForLoop.Direct
import Lox.Proofs.Mirror.Run

/-!
## Scopes around turns

The body of a loop declares nothing where it stands, and the update is an expression. So the scope
around a turn stays empty, and what is made in the turn finds through it the scope around the loop.
The machine with these scopes and the one without mirror each other at every turn, under a
correspondence that leaves out one more scope each time. What corresponded before still does
(`ForLoop.run_matched`).
-/

namespace Lox

open Attempt

variable {α β : Type} {ρ ρ' ρ'' : Correspondence} {m₁ m₂ m₁' m₂' m₁'' m₂'' : Machine}

-- ---------------------------------------------------------------------------
-- One more scope on the left
-- ---------------------------------------------------------------------------

/-- Nothing corresponds to `n`, and what comes after it is moved by one. -/
def Pairing.skip (ρ : Pairing) {n k : Nat} (h : ρ.rel n k) : Pairing where
  rel i j := (i < n ∧ ρ.rel i j) ∨ ∃ d, i = n + (d + 1) ∧ j = k + d
  lt_iff := by
    rintro i j i' j' (⟨hi, hij⟩ | ⟨d, rfl, rfl⟩) (⟨hi', hij'⟩ | ⟨d', rfl, rfl⟩)
    · exact ρ.lt_iff hij hij'
    · have := (ρ.lt_iff hij h).1 hi
      omega
    · have := (ρ.lt_iff hij' h).1 hi'
      omega
    · omega

theorem Pairing.skip_iff (ρ : Pairing) {n k i j : Nat} (h : ρ.rel n k) (hi : i < n) :
    (ρ.skip h).rel i j ↔ ρ.rel i j := by
  constructor
  · rintro (⟨-, hij⟩ | ⟨d, rfl, -⟩)
    · exact hij
    · omega
  · exact fun hij => .inl ⟨hi, hij⟩

theorem Pairing.not_skip (ρ : Pairing) {n k : Nat} (h : ρ.rel n k) (j : Nat) :
    ¬ (ρ.skip h).rel n j := by
  rintro (⟨hlt, -⟩ | ⟨d, heq, -⟩) <;> omega

def Correspondence.skip (ρ : Correspondence) {n k : Nat} (h : ρ.scope.rel n k) :
    Correspondence where
  scope := ρ.scope.skip h
  identity := ρ.identity

namespace Machine

/-- Both machines went on, from `m₁` to `m₁'` and from `m₂` to `m₂'`. What corresponded still does,
under another correspondence. -/
structure Onward (ρ ρ' : Correspondence) (m₁ m₂ m₁' m₂' : Machine) : Prop where
  mirrors : Mirrors ρ' m₁' m₂'
  within : (ρ.on m₁).Within (ρ'.on m₁')
  env : m₁'.env = m₁.env
  env_right : m₂'.env = m₂.env
  printed : ∃ text, m₁'.output = m₁.output ++ text ∧ m₂'.output = m₂.output ++ text

theorem Together.onward (h : Together ρ m₁ m₂ m₁' m₂') : Onward ρ ρ m₁ m₂ m₁' m₂' :=
  ⟨h.mirrors, h.within, h.env, h.env_right, h.printed⟩

namespace Onward

theorem trans (h : Onward ρ ρ' m₁ m₂ m₁' m₂') (h' : Onward ρ' ρ'' m₁' m₂' m₁'' m₂'') :
    Onward ρ ρ'' m₁ m₂ m₁'' m₂'' where
  mirrors := h'.mirrors
  within := h.within.trans h'.within
  env := h'.env.trans h.env
  env_right := h'.env_right.trans h.env_right
  printed := printed_trans h.printed h'.printed

theorem level (h : Onward ρ ρ' m₁ m₂ m₁' m₂') (hat : Level ρ m₁ m₂) : Level ρ' m₁' m₂' := by
  unfold Level
  rw [h.env, h.env_right]
  exact h.within.scope hat

/-- The scope that is left was opened on both sides. -/
theorem leave (h : Onward ρ ρ' (m₁.enter []) (m₂.enter []) m₁' m₂') :
    Onward ρ ρ' m₁ m₂ m₁'.leave m₂'.leave where
  mirrors := h.mirrors.moved (by rw [h.env]; rfl) h.mirrors.callDepth
  within := (ρ.below_within (size_enter ▸ Nat.le_succ _) (Nat.le_refl _)).trans h.within
  env := by
    rw [Machine.leave, h.env]
    rfl
  env_right := by
    rw [Machine.leave, h.env_right]
    rfl
  printed := h.printed

end Onward

namespace Mirrors

/-- What corresponds once an empty scope is opened on the left only. -/
def skipping (h : Mirrors ρ m₁ m₂) : Correspondence :=
  ρ.skip (h.store.next 0)

theorem skipping_within (h : Mirrors ρ m₁ m₂) :
    (ρ.on m₁).Within (h.skipping.on (m₁.enter [])) where
  scope hij := ⟨Nat.lt_of_lt_of_le hij.1 (size_enter ▸ Nat.le_succ _), .inl hij⟩
  identity := id

theorem leads_skipping (h : Mirrors ρ m₁ m₂) {i j : ScopeId} (hij : m₁.store.Leads ρ i j) :
    (m₁.enter []).store.Leads h.skipping i j := by
  refine hij.mono (size_enter ▸ Nat.le_succ _) (fun hi => ?_) fun hi _ => getElem?_enter hi
  exact ρ.scope.skip_iff (h.store.next 0) hi

/-- The scope around the new one still corresponds to the current scope on the right. -/
theorem abreast_skipping (h : Mirrors ρ m₁ m₂) (hat : Level ρ m₁ m₂) :
    Abreast h.skipping (m₁.enter []) m₂ := by
  have hnew : (m₁.enter []).store.scopes[m₁.store.size]? =
      some { bindings := [], parent? := some m₁.env.current } := by
    rw [store_enter]
    exact Store.getElem?_allocate.trans (if_pos rfl)
  exact .up (ρ.scope.not_skip (h.store.next 0)) hnew (h.leads_skipping hat.abreast)

theorem mirrors_skipping (h : Mirrors ρ m₁ m₂) (hat : Level ρ m₁ m₂) :
    Mirrors h.skipping (m₁.enter []) m₂ where
  hung := (h.hung.allocate hat.1).defineAll
  store.scopes {i j} hij := by
    obtain ⟨hlt, ⟨hi, hij⟩ | ⟨d, rfl, -⟩⟩ := hij
    · obtain ⟨s, t, hs, ht, hst⟩ := h.store.scopes ⟨hi, hij⟩
      exact ⟨s, t, (getElem?_enter hi).trans hs, ht,
        hst.mono h.skipping_within fun _ _ => h.leads_skipping⟩
    · rw [size_enter] at hlt
      omega
  store.next k := .inr ⟨k, by rw [size_enter]; omega, rfl⟩
  nextIdentity := h.nextIdentity
  callDepth := h.callDepth
  callLimit := h.callLimit
  builtins := h.builtins
  parallel := h.parallel

end Mirrors

/-- The scope that is left was opened on the left only. -/
theorem Together.leave_left (hwithin : (ρ.on m₁).Within (ρ'.on (m₁.enter [])))
    (h : Together ρ' (m₁.enter []) m₂ m₁' m₂') : Onward ρ ρ' m₁ m₂ m₁'.leave m₂' where
  mirrors := h.mirrors.moved (by rw [h.env]; rfl) h.mirrors.callDepth
  within := hwithin.trans h.within
  env := by
    rw [Machine.leave, h.env]
    rfl
  env_right := h.env_right
  printed := h.printed

end Machine

namespace Run

open Machine

/-- Two outcomes of which one is what the other is, under some correspondence. -/
inductive Matched (ρ : Correspondence) (m₁ m₂ : Machine) (P : Correspondence → α → α → Prop) :
    Option (Except RuntimeError α × Machine) → Option (Except RuntimeError α × Machine) → Prop where
  | cutOff : Matched ρ m₁ m₂ P none none
  | error {ρ' e m₁' m₂'} (h : Onward ρ ρ' m₁ m₂ m₁' m₂') :
      Matched ρ m₁ m₂ P (some (.error e, m₁')) (some (.error e, m₂'))
  | ok {ρ' a b m₁' m₂'} (h : Onward ρ ρ' m₁ m₂ m₁' m₂') (hab : P (ρ'.on m₁') a b) :
      Matched ρ m₁ m₂ P (some (.ok a, m₁')) (some (.ok b, m₂'))

namespace Matched

variable {P : Correspondence → α → α → Prop} {Q : Correspondence → β → β → Prop}
  {o o' : Option (Except RuntimeError α × Machine)}

theorem after (h : Onward ρ ρ' m₁ m₂ m₁' m₂') (ho : Matched ρ' m₁' m₂' P o o') :
    Matched ρ m₁ m₂ P o o' := by
  cases ho with
  | cutOff => exact .cutOff
  | error h' => exact .error (h.trans h')
  | ok h' hab => exact .ok (h.trans h') hab

theorem bind {x y : Run α} {f g : α → Run β} (hx : Matched ρ m₁ m₂ P (x m₁) (y m₂))
    (hf : ∀ ρ' a b m₁' m₂', Onward ρ ρ' m₁ m₂ m₁' m₂' → P (ρ'.on m₁') a b →
      Matched ρ' m₁' m₂' Q (f a m₁') (g b m₂')) :
    Matched ρ m₁ m₂ Q ((x >>= f) m₁) ((y >>= g) m₂) := by
  rw [bind_apply, bind_apply]
  match x m₁, y m₂, hx with
  | _, _, .cutOff => exact .cutOff
  | _, _, .error h => exact .error h
  | _, _, .ok h hab => exact after h (hf _ _ _ _ _ h hab)

theorem inScope {x y : Run α} (h : Matched ρ (m₁.enter []) (m₂.enter []) P (x (m₁.enter []))
    (y (m₂.enter []))) :
    Matched ρ m₁ m₂ P (Run.inScope [] x m₁) (Run.inScope [] y m₂) := by
  rw [inScope_apply, inScope_apply]
  match x (m₁.enter []), y (m₂.enter []), h with
  | _, _, .cutOff => exact .cutOff
  | _, _, .error h => exact .error h.leave
  | _, _, .ok h hab => exact .ok h.leave hab

end Matched

theorem Alongside.matched {P : Correspondence → α → α → Prop} {x y : Run α}
    (h : Alongside ρ m₁ m₂ P x y) : Matched ρ m₁ m₂ P (x m₁) (y m₂) := by
  unfold Alongside at h
  match x m₁, y m₂, h with
  | _, _, .cutOff => exact .cutOff
  | _, _, .error h => exact .error h.onward
  | _, _, .ok h hab => exact .ok h.onward hab

/-- What goes alongside in a scope that only the left opened, matches. -/
theorem Alongside.matched_left {P : Correspondence → α → α → Prop} {x y : Run α}
    (hwithin : (ρ.on m₁).Within (ρ'.on (m₁.enter [])))
    (h : Alongside ρ' (m₁.enter []) m₂ P x y) :
    Matched ρ m₁ m₂ P (Run.inScope [] x m₁) (y m₂) := by
  unfold Alongside at h
  rw [inScope_apply]
  match x (m₁.enter []), y m₂, h with
  | _, _, .cutOff => exact .cutOff
  | _, _, .error h => exact .error (h.leave_left hwithin)
  | _, _, .ok h hab => exact .ok (h.leave_left hwithin) hab

end Run

-- ---------------------------------------------------------------------------
-- Loops
-- ---------------------------------------------------------------------------

namespace Run

variable {x y x' y' : Run Completion}

theorem followedBy_alongside (hx : Alongside ρ m₁ m₂ Completion.Pairs x y)
    (hx' : ∀ m₁' m₂', m₁.Together ρ m₂ m₁' m₂' →
      Alongside ρ m₁' m₂' Completion.Pairs x' y') :
    Alongside ρ m₁ m₂ Completion.Pairs (followedBy x x') (followedBy y y') := by
  refine .bind hx fun c d _ _ h hc => ?_
  cases hc with
  | normal => exact hx' _ _ h
  | returned hv => exact .pure h.mirrors (.returned hv)

theorem followedBy_matched (hx : Matched ρ m₁ m₂ Completion.Pairs (x m₁) (y m₂))
    (hx' : ∀ ρ' m₁' m₂', m₁.Onward ρ ρ' m₂ m₁' m₂' →
      Matched ρ' m₁' m₂' Completion.Pairs (x' m₁') (y' m₂')) :
    Matched ρ m₁ m₂ Completion.Pairs (followedBy x x' m₁) (followedBy y y' m₂) := by
  refine .bind hx fun ρ' c d _ _ h hc => ?_
  cases hc with
  | normal => exact hx' _ _ _ h
  | returned hv => exact (Alongside.pure h.mirrors (.returned hv)).matched

end Run

namespace ForLoop

variable (l : ForLoop) (n : Nat)

theorem goesOn_alongside (hm : m₁.Mirrors ρ m₂) (hat : m₁.Abreast ρ m₂) :
    Run.Alongside ρ m₁ m₂ (fun _ b c => b = c) (l.goesOn n) (l.goesOn n) := by
  unfold goesOn
  cases l.condition with
  | none => exact .pure hm rfl
  | some e =>
    refine .bind ((runsAlongside ρ n).eval e hm hat) fun v w _ _ h hv => ?_
    exact .pure h.mirrors hv.isTrue_eq

theorem runUpdate_alongside (hm : m₁.Mirrors ρ m₂) (hat : m₁.Abreast ρ m₂) :
    Run.Alongside ρ m₁ m₂ Completion.Pairs (l.runUpdate n) (l.runUpdate n) := by
  unfold runUpdate
  cases l.update with
  | none => exact .pure hm .normal
  | some e =>
    refine .bind ((runsAlongside ρ n).eval e hm hat) fun _ _ _ _ h _ => ?_
    exact .pure h.mirrors .normal

variable {l}

theorem turn_alongside (hbody : l.body.declared = []) (hm : m₁.Mirrors ρ m₂)
    (hat : m₁.Abreast ρ m₂) :
    Run.Alongside ρ m₁ m₂ Completion.Pairs (l.turn n) (l.turn n) := by
  have hready : m₁.Ready ρ l.body.declared m₂ := ⟨hat, fun hne => absurd hbody hne⟩
  refine Run.followedBy_alongside ((runsAlongside ρ n).exec l.body hm hready) fun _ _ h => ?_
  exact l.runUpdate_alongside n h.mirrors (h.abreast hat)

/-- A turn with a scope around it and one without. -/
theorem turn_matched (hbody : l.body.declared = []) (hm : m₁.Mirrors ρ m₂)
    (hat : m₁.Level ρ m₂) :
    Run.Matched ρ m₁ m₂ Completion.Pairs (l.turnInBlock n m₁) (l.turn n m₂) := by
  unfold turnInBlock
  split
  · exact (turn_alongside n hbody (hm.mirrors_skipping hat)
      (hm.abreast_skipping hat)).matched_left hm.skipping_within
  · exact (turn_alongside n hbody hm hat.abreast).matched

theorem turns_matched (hbody : l.body.declared = []) (hm : m₁.Mirrors ρ m₂)
    (hat : m₁.Level ρ m₂) :
    Run.Matched ρ m₁ m₂ Completion.Pairs (turns l.goesOn l.turnInBlock n m₁)
      (turns l.goesOn l.turn n m₂) := by
  induction n generalizing ρ m₁ m₂ with
  | zero => exact .cutOff
  | succ n ih =>
    refine .bind (l.goesOn_alongside n hm hat.abreast).matched fun ρ' b c _ _ h hb => ?_
    subst hb
    cases b with
    | true =>
      refine Run.followedBy_matched (turn_matched n hbody h.mirrors (h.level hat)) ?_
      exact fun _ _ _ h' => ih h'.mirrors (h'.level (h.level hat))
    | false => exact (Run.Alongside.pure h.mirrors .normal).matched

/-- The loop with a scope around every turn and the loop itself. -/
theorem run_matched (hbody : l.body.declared = []) (hm : m₁.Mirrors ρ m₂)
    (hat : m₁.Level ρ m₂) :
    Run.Matched ρ m₁ m₂ Completion.Pairs (l.runInBlocks n m₁) (l.run n m₂) := by
  unfold runInBlocks run start
  cases l.initial with
  | none => exact turns_matched n hbody hm hat
  | some s =>
    obtain ⟨henter, hat'⟩ := hm.enter hat.abreast .nil
    refine .inScope (Run.followedBy_matched ?_ fun _ _ _ h => ?_)
    · exact ((runsAlongside ρ n).exec s henter (hat'.ready _)).matched
    · exact turns_matched n hbody h.mirrors (h.level hat')

end ForLoop

end Lox
