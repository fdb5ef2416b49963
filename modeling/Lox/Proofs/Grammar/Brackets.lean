-- SUMMARY: Nesting of brackets of one sort in a token list.
import Lox.Token.Basic

/-!
## Brackets

A token list is read from left to right with the number of brackets that are open. There is no
such number after a bracket that closes nothing.
-/

namespace Lox

/-- A sort of brackets. -/
structure BracketSort where
  opening : Kind
  closing : Kind
  distinct : opening ≠ closing := by decide

namespace BracketSort

def parens : BracketSort where
  opening := .leftParen
  closing := .rightParen

def braces : BracketSort where
  opening := .leftBrace
  closing := .rightBrace

@[simp] theorem parens_opening : parens.opening = .leftParen := rfl
@[simp] theorem parens_closing : parens.closing = .rightParen := rfl
@[simp] theorem braces_opening : braces.opening = .leftBrace := rfl
@[simp] theorem braces_closing : braces.closing = .rightBrace := rfl

/-- The number of open brackets after some tokens, from `n` open ones on. -/
def depthFrom (b : BracketSort) : Nat → List Token → Option Nat
  | n, [] => some n
  | n, t :: ts =>
    if t.kind = b.opening then
      b.depthFrom (n + 1) ts
    else if t.kind = b.closing then
      match n with
      | 0 => none
      | n + 1 => b.depthFrom n ts
    else
      b.depthFrom n ts

/-- No bracket closes nothing. -/
def Safe (b : BracketSort) (w : List Token) : Prop :=
  ∃ n, b.depthFrom 0 w = some n

/-- Every bracket that is opened is closed, and no other. -/
def Balanced (b : BracketSort) (w : List Token) : Prop :=
  b.depthFrom 0 w = some 0

/-- The tokens are no brackets of this sort. -/
def Absent (b : BracketSort) (w : List Token) : Prop :=
  ∀ t ∈ w, t.kind ≠ b.opening ∧ t.kind ≠ b.closing

variable {b : BracketSort} {t : Token} {u v w : List Token} {k m n : Nat}

@[simp] theorem depthFrom_nil : b.depthFrom n [] = some n := rfl

theorem depthFrom_opening (h : t.kind = b.opening) :
    b.depthFrom n (t :: w) = b.depthFrom (n + 1) w := by
  simp [depthFrom, h]

theorem depthFrom_closing (h : t.kind = b.closing) :
    b.depthFrom (n + 1) (t :: w) = b.depthFrom n w := by
  simp [depthFrom, h, b.distinct.symm]

theorem depthFrom_other (ho : t.kind ≠ b.opening) (hc : t.kind ≠ b.closing) :
    b.depthFrom n (t :: w) = b.depthFrom n w := by
  simp [depthFrom, ho, hc]

theorem depthFrom_append :
    b.depthFrom n (u ++ v) = (b.depthFrom n u).bind fun m => b.depthFrom m v := by
  fun_induction depthFrom b n u <;> simp_all [depthFrom]

/-- More open brackets before stay open. -/
theorem depthFrom_add (h : b.depthFrom n w = some m) : b.depthFrom (n + k) w = some (m + k) := by
  fun_induction depthFrom b n w with
  | case1 n => cases h; rfl
  | case2 n t ts ho ih => rw [depthFrom_opening ho, Nat.add_right_comm, ih h]
  | case3 => cases h
  | case4 t ts _ hc n ih => rw [Nat.succ_add_eq_add_succ, Nat.add_succ, depthFrom_closing hc, ih h]
  | case5 n t ts ho hc ih => rw [depthFrom_other ho hc, ih h]

theorem Balanced.depthFrom (h : b.Balanced w) : b.depthFrom n w = some n := by
  simpa using depthFrom_add (k := n) h

theorem Balanced.safe (h : b.Balanced w) : b.Safe w :=
  ⟨0, h⟩

theorem Balanced.nil : b.Balanced [] := rfl

theorem Balanced.append (hu : b.Balanced u) (hv : b.Balanced v) : b.Balanced (u ++ v) := by
  rw [Balanced, depthFrom_append, hu.depthFrom, Option.bind_some, hv.depthFrom]

theorem Balanced.append_iff (hu : b.Balanced u) : b.Balanced (u ++ v) ↔ b.Balanced v := by
  rw [Balanced, depthFrom_append, hu.depthFrom, Option.bind_some, Balanced]

theorem Balanced.safe_append_iff (hu : b.Balanced u) : b.Safe (u ++ v) ↔ b.Safe v := by
  simp only [Safe, depthFrom_append, hu.depthFrom, Option.bind_some]

theorem Safe.append (hu : b.Safe u) (hv : b.Safe v) : b.Safe (u ++ v) := by
  obtain ⟨m, hu⟩ := hu
  obtain ⟨n, hv⟩ := hv
  refine ⟨n + m, ?_⟩
  rw [depthFrom_append, hu, Option.bind_some]
  simpa using depthFrom_add (k := m) hv

theorem Safe.of_append (h : b.Safe (u ++ v)) : b.Safe u := by
  obtain ⟨n, h⟩ := h
  rw [depthFrom_append] at h
  obtain ⟨m, hu, -⟩ := Option.bind_eq_some_iff.1 h
  exact ⟨m, hu⟩

/-- What is left of a balanced list behind a part of it opens no bracket that it does not close. -/
theorem Balanced.depth_of_suffix (h : b.Balanced (u ++ v)) (hv : b.depthFrom 0 v = some n) :
    n = 0 := by
  rw [Balanced, depthFrom_append] at h
  obtain ⟨m, -, hm⟩ := Option.bind_eq_some_iff.1 h
  have := depthFrom_add (k := m) hv
  rw [Nat.zero_add, hm] at this
  have := Option.some.inj this
  omega

theorem Absent.append (hu : b.Absent u) (hv : b.Absent v) : b.Absent (u ++ v) :=
  List.forall_mem_append.2 ⟨hu, hv⟩

theorem Absent.balanced (h : b.Absent w) : b.Balanced w := by
  induction w with
  | nil => exact Balanced.nil
  | cons t w ih =>
    obtain ⟨ho, hc⟩ := h t (by simp)
    rw [Balanced, depthFrom_other ho hc]
    exact ih fun t ht => h t (List.mem_cons_of_mem _ ht)

/-- Something safe behind an opening bracket leaves that bracket open. -/
theorem Safe.depth_cons_pos (hw : b.Safe w) (ht : t.kind = b.opening) :
    ∃ n, b.depthFrom 0 (t :: w) = some (n + 1) := by
  obtain ⟨n, hw⟩ := hw
  refine ⟨n, ?_⟩
  rw [depthFrom_opening ht]
  exact depthFrom_add hw

theorem Safe.not_balanced_cons (hw : b.Safe w) (ht : t.kind = b.opening) :
    ¬ b.Balanced (t :: w) := by
  obtain ⟨n, hn⟩ := hw.depth_cons_pos ht
  rw [Balanced, hn]
  simp

theorem Safe.cons_opening (hw : b.Safe w) (ht : t.kind = b.opening) : b.Safe (t :: w) := by
  obtain ⟨n, hn⟩ := hw.depth_cons_pos ht
  exact ⟨n + 1, hn⟩

theorem Balanced.enclosed {t' : Token} (hw : b.Balanced w) (ht : t.kind = b.opening)
    (ht' : t'.kind = b.closing) : b.Balanced (t :: (w ++ [t'])) := by
  rw [Balanced, depthFrom_opening ht, depthFrom_append, hw.depthFrom, Option.bind_some,
    depthFrom_closing ht', depthFrom_nil]

end BracketSort

end Lox
