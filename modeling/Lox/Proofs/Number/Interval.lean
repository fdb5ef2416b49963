-- SUMMARY: The numbers that round to different doubles lie apart.
import Mathlib.Algebra.Order.Field.Power
import Mathlib.Data.Rat.Cast.Order
import Mathlib.Tactic.Linarith
import Mathlib.Tactic.NormNum
import Mathlib.Tactic.Positivity
import Lox.Number.Shortest

/-!
## Rounding intervals

The intervals that the shortest decimals are searched in do not overlap: a rational number rounds to
one double only (`Rounds.unique`). Two neighbours can share an end of their intervals, but then one
of them is odd, and the end belongs to the even one.
-/

namespace Lox.Number

/-- The pairs `m`, `q` that finite doubles have. Above the least binade, `m` has all of its bits. -/
structure Normal (m : Nat) (q : Int) : Prop where
  lt : m < 2 ^ 53
  least : -1074 ≤ q
  binade : -1074 < q → 2 ^ 52 ≤ m

/-- The point `y` lies in the interval. -/
def Interval.Holds (i : Interval) (y : ℚ) : Prop :=
  if i.closed then i.lower ≤ y ∧ y ≤ i.upper else i.lower < y ∧ y < i.upper

/-- The number `x` rounds to `m · 2 ^ q`. -/
def Rounds (m : Nat) (q : Int) (x : ℚ) : Prop :=
  (Interval.around m q).Holds (x / 2 ^ (q - 2))

variable {i : Interval} {m m' : Nat} {q q' : Int} {x y : ℚ}

namespace Interval

theorem Holds.lower (h : i.Holds y) : i.lower ≤ y := by
  unfold Holds at h
  split at h
  · exact h.1
  · exact h.1.le

theorem Holds.upper (h : i.Holds y) : y ≤ i.upper := by
  unfold Holds at h
  split at h
  · exact h.2
  · exact h.2.le

theorem Holds.strict (h : i.Holds y) (hopen : i.closed = false) : i.lower < y ∧ y < i.upper := by
  rwa [Holds, if_neg (Bool.eq_false_iff.1 hopen)] at h

/-- The value itself lies inside. -/
theorem holds_of_between (h : i.lower < y) (h' : y < i.upper) : i.Holds y := by
  unfold Holds
  split
  · exact ⟨h.le, h'.le⟩
  · exact ⟨h, h'⟩

theorem around_closed (m : Nat) (q : Int) : (around m q).closed = (m % 2 == 0) :=
  rfl

theorem around_upper (m : Nat) (q : Int) : (around m q).upper = 4 * m + 2 :=
  rfl

theorem around_lower (m : Nat) (q : Int) :
    (around m q).lower = if m = 2 ^ 52 ∧ -1074 < q then 4 * m - 1 else 4 * m - 2 :=
  rfl

/-- Above the least binade the interval starts just below the least value of its binade, or further
up. -/
theorem lower_of_binade (hm : 2 ^ 52 ≤ m) (hq : -1074 < q) : 2 ^ 54 - 1 ≤ (around m q).lower := by
  rw [around_lower]
  split <;> omega

theorem le_lower (m : Nat) (q : Int) : 4 * m ≤ (around m q).lower + 2 := by
  rw [around_lower]
  split <;> omega

end Interval

theorem Rounds.not_lt_exponent (h : Rounds m q x) (h' : Rounds m' q' x) (hm : Normal m q)
    (hm' : Normal m' q') : ¬ q < q' := by
  intro hq
  have hleast : -1074 < q' := by
    have := hm.least
    omega
  have hscale : x / 2 ^ (q - 2) = x / 2 ^ (q' - 2) * 2 ^ (q' - q) := by
    rw [div_mul_eq_mul_div, div_eq_div_iff (by positivity) (by positivity), mul_assoc,
      ← zpow_add₀ two_ne_zero]
    congr 2
    omega
  have htwo : (2 : ℚ) ≤ 2 ^ (q' - q) := by
    have := zpow_le_zpow_right₀ (a := (2 : ℚ)) (by norm_num) (show 1 ≤ q' - q by omega)
    simpa using this
  have hlower : (2 ^ 54 - 1 : ℚ) ≤ x / 2 ^ (q' - 2) := by
    have := Interval.lower_of_binade (hm'.binade hleast) hleast
    refine le_trans ?_ h'.lower
    rw [sub_le_iff_le_add]
    exact_mod_cast (by omega : 2 ^ 54 ≤ (Interval.around m' q').lower + 1)
  have hm53 : (m : ℚ) + 1 ≤ 2 ^ 53 := by exact_mod_cast hm.lt
  have hpoint : (2 ^ 54 - 1 : ℚ) * 2 ≤ x / 2 ^ (q - 2) := by
    rw [hscale]
    gcongr
  -- what is left is the greatest `m`, which is odd
  by_cases heven : m % 2 = 0
  · have hm53 : (m : ℚ) + 2 ≤ 2 ^ 53 := by
      have := hm.lt
      exact_mod_cast (by omega : m + 2 ≤ 2 ^ 53)
    have hupper := h.upper
    rw [Interval.around_upper] at hupper
    push_cast at hupper
    linarith
  · have hupper := (h.strict (by simp [Interval.around_closed, heven])).2
    rw [Interval.around_upper] at hupper
    push_cast at hupper
    linarith

theorem Rounds.not_lt_mantissa (h : Rounds m q x) (h' : Rounds m' q x) : ¬ m < m' := by
  intro hlt
  have hlower : (4 * m' : ℚ) ≤ (Interval.around m' q).lower + 2 := by
    exact_mod_cast Interval.le_lower m' q
  have hupper : ((Interval.around m q).upper : ℚ) = 4 * m + 2 := by
    rw [Interval.around_upper]
    norm_num
  have hle := h.upper
  have hge := h'.lower
  have hsucc : (m : ℚ) + 1 ≤ m' := by exact_mod_cast hlt
  by_cases hodd : m % 2 = 1
  · have := (h.strict (by simp [Interval.around_closed, hodd])).2
    linarith
  · by_cases hodd' : m' % 2 = 1
    · have := (h'.strict (by simp [Interval.around_closed, hodd'])).1
      linarith
    · have hsucc : (m : ℚ) + 2 ≤ m' := by exact_mod_cast (by omega : m + 2 ≤ m')
      linarith

/-- No number rounds to two doubles. -/
theorem Rounds.unique (h : Rounds m q x) (h' : Rounds m' q' x) (hm : Normal m q)
    (hm' : Normal m' q') : m = m' ∧ q = q' := by
  obtain rfl : q = q' := le_antisymm (le_of_not_gt (h'.not_lt_exponent h hm' hm))
    (le_of_not_gt (h.not_lt_exponent h' hm hm'))
  exact ⟨le_antisymm (le_of_not_gt (h'.not_lt_mantissa h)) (le_of_not_gt (h.not_lt_mantissa h')),
    rfl⟩

end Lox.Number
