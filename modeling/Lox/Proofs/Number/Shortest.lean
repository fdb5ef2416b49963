-- SUMMARY: The shortest decimal of a number rounds to this number.
import Mathlib.Tactic.FieldSimp
import Mathlib.Tactic.Ring
import Lox.Proofs.Number.Interval

/-!
## Shortest decimals

The search for the shortest decimal ends with a point of the rounding interval: on the grids it
takes nothing else, and where it gives up it takes the number itself (`shortest_rounds`).
-/

namespace Lox.Number

variable {i : Interval} {m d unit x : Nat} {q k : Int}

/-- The number that a decimal stands for. -/
def Decimal.value (d : Decimal) : ℚ :=
  d.digits * 10 ^ d.exponent

theorem zpow_eq_div {b : ℚ} (hb : b ≠ 0) (k : Int) : b ^ k = b ^ k.toNat / b ^ (-k).toNat := by
  rw [← zpow_natCast, ← zpow_natCast, ← zpow_sub₀ hb, Int.toNat_sub_toNat_neg]

theorem Interval.contains_iff (hunit : 0 < unit) :
    i.contains unit x = true ↔ i.Holds (x / unit) := by
  have hpos : (0 : ℚ) < unit := Nat.cast_pos.2 hunit
  have hle : (i.lower : ℚ) ≤ x / unit ↔ i.lower * unit ≤ x := by
    rw [le_div_iff₀ hpos]
    exact_mod_cast Iff.rfl
  have hle' : (x : ℚ) / unit ≤ i.upper ↔ x ≤ i.upper * unit := by
    rw [div_le_iff₀ hpos]
    exact_mod_cast Iff.rfl
  have hlt : (i.lower : ℚ) < x / unit ↔ i.lower * unit < x := by
    rw [lt_div_iff₀ hpos]
    exact_mod_cast Iff.rfl
  have hlt' : (x : ℚ) / unit < i.upper ↔ x < i.upper * unit := by
    rw [div_lt_iff₀ hpos]
    exact_mod_cast Iff.rfl
  unfold contains Holds
  rw [hle, hle', hlt, hlt']
  split <;> simp

/-- A point that is found on a grid lies in the interval. -/
theorem nearestOnGrid?_rounds (h : nearestOnGrid? m q k = some d) :
    Rounds m q (Decimal.value ⟨d, k⟩) := by
  have hunit : 0 < Nat.pow 2 (q - 2).toNat * Nat.pow 10 (-k).toNat :=
    Nat.mul_pos (Nat.pow_pos (by decide)) (Nat.pow_pos (by decide))
  have hcontains : (Interval.around m q).contains
      (Nat.pow 2 (q - 2).toNat * Nat.pow 10 (-k).toNat)
      (d * (Nat.pow 10 k.toNat * Nat.pow 2 (2 - q).toNat)) = true := by
    unfold nearestOnGrid? at h
    dsimp only at h
    split at h
    · next hbelow habove =>
      cases h
      split
      · exact hbelow
      · exact habove
    · next hbelow _ =>
      cases h
      exact hbelow
    · next _ habove =>
      cases h
      exact habove
    · cases h
  rw [Interval.contains_iff hunit] at hcontains
  have hneg : (2 - q).toNat = (-(q - 2)).toNat := by rw [Int.neg_sub]
  have hvalue : Decimal.value ⟨d, k⟩ / 2 ^ (q - 2) =
      ((d * (Nat.pow 10 k.toNat * Nat.pow 2 (2 - q).toNat) : Nat) : ℚ) /
        (Nat.pow 2 (q - 2).toNat * Nat.pow 10 (-k).toNat : Nat) := by
    rw [Decimal.value, zpow_eq_div two_ne_zero (q - 2), zpow_eq_div (b := 10) (by norm_num) k, hneg]
    simp only [Nat.pow_eq]
    push_cast
    field_simp
  rw [Rounds, hvalue]
  exact hcontains

theorem rounds_self (m : Nat) (q : Int) : Rounds m q (m * 2 ^ q) := by
  have hpoint : (m * 2 ^ q : ℚ) / 2 ^ (q - 2) = (4 * m : Nat) := by
    rw [zpow_sub₀ two_ne_zero]
    push_cast
    field_simp
  rw [Rounds, hpoint]
  rcases Nat.eq_zero_or_pos m with rfl | hm
  · simp [Interval.Holds, Interval.around]
  · refine Interval.holds_of_between (Nat.cast_lt.2 ?_) (Nat.cast_lt.2 ?_)
    · rw [Interval.around_lower]
      split <;> omega
    · rw [Interval.around_upper]
      omega

theorem exactDecimal_value (m : Nat) (q : Int) : (exactDecimal m q).value = m * 2 ^ q := by
  unfold exactDecimal Decimal.value
  rcases le_total 0 q with hq | hq
  · obtain ⟨n, rfl⟩ := Int.eq_ofNat_of_zero_le hq
    simp
  · obtain ⟨n, hn⟩ := Int.eq_ofNat_of_zero_le (Int.neg_nonneg.2 hq)
    obtain rfl : q = -n := by omega
    have hten : (10 : ℚ) = 5 * 2 := by norm_num
    simp [hten, mul_pow]
    field_simp

theorem searchGrids_rounds (m : Nat) (q : Int) (steps : Nat) (k : Int) :
    Rounds m q (searchGrids m q steps k).value := by
  induction steps generalizing k with
  | zero =>
    rw [searchGrids, exactDecimal_value]
    exact rounds_self m q
  | succ steps ih =>
    rw [searchGrids]
    split
    · next h => exact nearestOnGrid?_rounds h
    · exact ih (k - 1)

theorem shortest_rounds (m : Nat) (q : Int) : Rounds m q (shortest m q).value :=
  searchGrids_rounds m q _ _

end Lox.Number
