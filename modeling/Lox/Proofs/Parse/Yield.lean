-- SUMMARY: A step of the parser yields a value once it has enough fuel.
import Lox.Parse.Grammar
import Lox.Proofs.Parse.Taking

/-!
## Yields

`Yields f c a d` says that `f` moves from `c` to `d` with the value `a`, on every amount of fuel
from some amount on. The rules run a sequence of steps forward, each on the token that is there.
-/

namespace Lox

namespace Parse

variable {α β : Type}

def Yields (f : Nat → Parse α) (c : Cursor) (a : α) (d : Cursor) : Prop :=
  ∃ k, ∀ n, k ≤ n → f n c = some (.ok a, d)

namespace Yields

variable {f : Nat → Parse α} {g : Nat → α → Parse β} {c d m : Cursor} {a : α} {b : β} {t : Token}
  {kind : Kind} {expected : String}

theorem pure (a : α) (c : Cursor) : Yields (fun _ => Pure.pure a) c a c :=
  ⟨0, fun _ _ => rfl⟩

/-- A function that spends a unit of fuel. -/
theorem succ (h : Yields (fun n => f (n + 1)) c a d) : Yields f c a d := by
  obtain ⟨k, h⟩ := h
  refine ⟨k + 1, fun n hn => ?_⟩
  obtain ⟨n, rfl⟩ : ∃ m, n = m + 1 := ⟨n - 1, by omega⟩
  exact h n (by omega)

theorem bind (hf : Yields f c a m) (hg : Yields (fun n => g n a) m b d) :
    Yields (fun n => f n >>= g n) c b d := by
  obtain ⟨k, hf⟩ := hf
  obtain ⟨l, hg⟩ := hg
  refine ⟨k + l, fun n hn => ?_⟩
  show (f n >>= g n) c = _
  rw [Attempt.bind_apply, hf n (by omega)]
  exact hg n (by omega)

theorem current {g : Nat → Token → Parse β} (h : Yields (fun n => g n c.current) c b d) :
    Yields (fun n => Parse.current >>= g n) c b d :=
  h

theorem atEnd {g : Nat → Bool → Parse β} (h : Yields (fun n => g n c.atEnd) c b d) :
    Yields (fun n => Parse.atEnd >>= g n) c b d :=
  h

theorem sees {g : Nat → Bool → Parse β} (hc : c.current.kind = kind)
    (h : Yields (fun n => g n true) c b d) : Yields (fun n => Parse.sees kind >>= g n) c b d := by
  have hs : c.sees kind = true := Cursor.sees_eq_true_iff.2 hc
  rw [← hs] at h
  exact h

theorem sees_not {g : Nat → Bool → Parse β} (hc : c.current.kind ≠ kind)
    (h : Yields (fun n => g n false) c b d) : Yields (fun n => Parse.sees kind >>= g n) c b d := by
  have hs : c.sees kind = false := Cursor.sees_eq_false_iff.2 hc
  rw [← hs] at h
  exact h

/-- Where a token can be taken, the cursor moves past it. -/
theorem next_eq (h : c.Takes [t] m) : c.current = t ∧ c.next = m := by
  have hc := h.current_of_cons
  refine ⟨hc, ?_⟩
  have hend : c.current.kind ≠ .endOfFile := hc ▸ h.no_end t (by simp)
  exact (hc ▸ Cursor.next_takes hend : c.Takes [t] c.next).unique h

theorem advance {g : Nat → Token → Parse β} (ht : c.Takes [t] m)
    (h : Yields (fun n => g n t) m b d) : Yields (fun n => Parse.advance >>= g n) c b d := by
  obtain ⟨rfl, rfl⟩ := next_eq ht
  exact h

theorem eat {g : Nat → Bool → Parse β} (hk : t.kind = kind) (ht : c.Takes [t] m)
    (h : Yields (fun n => g n true) m b d) : Yields (fun n => Parse.eat kind >>= g n) c b d := by
  obtain ⟨rfl, rfl⟩ := next_eq ht
  refine bind ⟨0, fun _ _ => ?_⟩ h
  simp [Parse.eat, Cursor.eat, Cursor.sees, hk]

theorem eat_not {g : Nat → Bool → Parse β} (hc : c.current.kind ≠ kind)
    (h : Yields (fun n => g n false) c b d) : Yields (fun n => Parse.eat kind >>= g n) c b d := by
  refine bind ⟨0, fun _ _ => ?_⟩ h
  simp [Parse.eat, Cursor.eat, Cursor.sees, hc]

theorem expect {g : Nat → Token → Parse β} (hk : t.kind = kind) (ht : c.Takes [t] m)
    (h : Yields (fun n => g n t) m b d) :
    Yields (fun n => Parse.expect kind expected >>= g n) c b d := by
  obtain ⟨rfl, rfl⟩ := next_eq ht
  refine bind ⟨0, fun _ _ => ?_⟩ h
  simp [Parse.expect, Cursor.expect, Cursor.sees, hk]

theorem expectIdentifier {g : Nat → Token → Parse β} (hk : t.kind = .identifier)
    (ht : c.Takes [t] m) (h : Yields (fun n => g n t) m b d) :
    Yields (fun n => Parse.expectIdentifier expected >>= g n) c b d := by
  obtain ⟨rfl, rfl⟩ := next_eq ht
  refine bind ⟨0, fun _ _ => ?_⟩ h
  simp [Parse.expectIdentifier, Cursor.expectIdentifier, Cursor.sees, hk]

theorem declaredName {g : Nat → Name → Parse β} (hk : t.kind = .identifier) (ht : c.Takes [t] m)
    (h : Yields (fun n => g n ⟨t.lexeme, t.line⟩) m b d) :
    Yields (fun n => Parse.declaredName expected >>= g n) c b d :=
  bind (f := fun _ => Parse.declaredName expected) (expectIdentifier hk ht (pure _ m)) h

end Yields

end Parse

end Lox
