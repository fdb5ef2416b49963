-- SUMMARY: How deep the phases of a run are nested in calls of functions.
import Lox.Proofs.Run.Phase

/-!
## Nesting

The calls that are open in a phase are counted on the way to it: a call opens a function, a native
opens nothing, and what was open in one part of a run is closed in the next. Every run has a deepest
nesting (`exists_nesting`), which tells whether more calls are open at some time than a limit would
allow (`Nesting.deep_iff`).
-/

namespace Lox

namespace Phase

variable {d j k : Nat} {c c' : Phase}

/-- `k` calls of functions are open inside of each other where the run nests them deepest. -/
structure Nesting (c : Phase) (k : Nat) : Prop where
  reached : ∃ c', Contains k c c'
  most : ∀ j c', Contains j c c' → j ≤ k

/-- More than `d` calls are open at some time of the run, those around it included. -/
def Deep (d : Nat) (c : Phase) : Prop :=
  ∃ k c', Contains k c c' ∧ d < c.machine.callDepth + k

theorem Part.callDepth (h : Part j c c') : c'.machine.callDepth = c.machine.callDepth + j := by
  cases h with
  | first | body | block => rfl
  | right h | logicalRight h | arguments h | tail h | yes h | no h | turn h =>
    exact (eval_kept h).callDepth
  | call h h' => exact (evalAll_kept h').callDepth.trans (eval_kept h).callDepth
  | again h _ h' => exact (exec_kept h').callDepth.trans (eval_kept h).callDepth
  | rest h => exact (exec_kept h).callDepth

theorem Deep.of_part (h : Part j c c') (hdeep : Deep d c') : Deep d c := by
  obtain ⟨k, c'', hc, hd⟩ := hdeep
  rw [h.callDepth, Nat.add_assoc] at hd
  exact ⟨j + k, c'', .part h hc, hd⟩

theorem Deep.part (hdeep : Deep d c) (hc : c.machine.callDepth ≤ d) :
    ∃ j c', Part j c c' ∧ Deep d c' := by
  obtain ⟨k, c', hcontains, hd⟩ := hdeep
  cases hcontains with
  | self => exact absurd hd (Nat.not_lt.2 hc)
  | part h h' => exact ⟨_, _, h, _, _, h', by rw [h.callDepth]; omega⟩

theorem Part.fuel (h : Part j c c') : c'.fuel + j ≤ c.fuel := by
  cases h with
  | body => exact Nat.le_refl _
  | _ => exact Nat.le_succ _

theorem Contains.fuel (h : Contains k c c') : c'.fuel + k ≤ c.fuel := by
  induction h with
  | self => exact Nat.le_refl _
  | part h _ ih =>
    have := h.fuel
    omega

/-- Every call takes a unit of fuel, so no run nests its calls without end. -/
theorem exists_nesting (c : Phase) : ∃ k, c.Nesting k := by
  have hbounded (b : Nat) : (∀ j c', Contains j c c' → j ≤ b) → ∃ k, c.Nesting k := by
    induction b with
    | zero => exact fun h => ⟨0, ⟨c, .self c⟩, h⟩
    | succ b ih =>
      intro h
      by_cases hb : ∃ c', Contains (b + 1) c c'
      · exact ⟨b + 1, hb, h⟩
      · refine ih fun j c' hc => Nat.le_of_lt_succ (Nat.lt_of_le_of_ne (h j c' hc) ?_)
        rintro rfl
        exact hb ⟨c', hc⟩
  exact hbounded c.fuel fun j c' hc => Nat.le_trans (Nat.le_add_left j _) hc.fuel

theorem Nesting.deep_iff (h : c.Nesting k) : Deep d c ↔ d < c.machine.callDepth + k := by
  constructor
  · rintro ⟨j, c', hc, hd⟩
    exact Nat.lt_of_lt_of_le hd (Nat.add_le_add_left (h.most j c' hc) _)
  · intro hd
    obtain ⟨c', hc⟩ := h.reached
    exact ⟨k, c', hc, hd⟩

end Phase

end Lox
