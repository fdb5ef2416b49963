-- SUMMARY: Every whole number up to 2 ^ 53 is a double.
import Mathlib.Algebra.Order.Field.Power
import Mathlib.Data.Nat.Log
import Mathlib.Data.Rat.Cast.Order
import Mathlib.Tactic.NormNum
import Mathlib.Tactic.Positivity
import Lox.Number.Basic

/-!
## Whole numbers

A double has a significand of 53 bits. So there is a number for every natural up to `2 ^ 53`
(`exists_whole`): the natural is shifted to the left until its highest bit is that of the
significand.
-/

namespace Lox.Number

variable {bits n exponent fraction : Nat}

/-- Bits whose exponent is not all ones are those of a number. -/
theorem valid_of_exponent {word : UInt64} (h : word.toNat / 2 ^ 52 % 2 ^ 11 ≠ 2047) :
    Float.Model.Format.binary64.Valid word.toBitVec := by
  refine ⟨fun hones => absurd ?_ h⟩
  have hfield := congrArg BitVec.toNat hones
  simp only [Float.Model.UnpackedFloat.unpackExponent, BitVec.toNat_cast,
    BitVec.extractLsb_toNat] at hfield
  rw [Nat.shiftRight_eq_div_pow] at hfield
  exact hfield

theorem exists_parts_ofBits (hlt : bits < 2 ^ 64) (h : bits / 2 ^ 52 % 2 ^ 11 ≠ 2047) :
    ∃ x, parts x = .ofBits bits := by
  refine ⟨⟨⟨.ofNatLT bits hlt, valid_of_exponent ?_⟩⟩, ?_⟩
  · rwa [UInt64.toNat_ofNatLT]
  · exact congrArg Parts.ofBits UInt64.toNat_ofNatLT

/-- The fields of a number with a full significand can be chosen. -/
theorem exists_parts (hpos : 0 < exponent) (hfinite : exponent < 2047)
    (hfraction : fraction < 2 ^ 52) :
    ∃ x, parts x = .finite false (2 ^ 52 + fraction) (exponent - 1075) := by
  have hsign : ((exponent * 2 ^ 52 + fraction) / 2 ^ 63 % 2 == 1) = false := by
    rw [beq_eq_false_iff_ne]
    omega
  have hfield : (exponent * 2 ^ 52 + fraction) / 2 ^ 52 % 2 ^ 11 = exponent := by omega
  have hrest : (exponent * 2 ^ 52 + fraction) % 2 ^ 52 = fraction := by omega
  have hlt : exponent * 2 ^ 52 + fraction < 2 ^ 64 := by omega
  obtain ⟨x, hx⟩ := exists_parts_ofBits hlt (by omega)
  refine ⟨x, hx.trans ?_⟩
  simp only [Parts.ofBits, Nat.pow_eq, Int.ofNat_eq_natCast, hfield, hrest, hsign]
  rw [if_neg (by omega), if_neg (by omega)]

/-- A full significand shifted to the right is a number. -/
theorem exists_shifted {m k : Nat} (hm : 2 ^ 52 ≤ m) (hm' : m < 2 ^ 53) (hk : k ≤ 53) :
    ∃ x, parts x = .finite false m (k - 52) := by
  have hpos : 0 < k + 1023 := by omega
  have hfraction : m - 2 ^ 52 < 2 ^ 52 := by omega
  obtain ⟨x, hx⟩ := exists_parts hpos (by omega) hfraction
  have hexponent : ((k + 1023 : Nat) : Int) - 1075 = k - 52 := by omega
  rw [Nat.add_sub_cancel' hm, hexponent] at hx
  exact ⟨x, hx⟩

/-- There is a number for every natural up to `2 ^ 53`. -/
theorem exists_whole (h : n ≤ 2 ^ 53) :
    ∃ x m q, parts x = .finite false m q ∧ (n : ℚ) = m * 2 ^ q := by
  rcases Nat.eq_zero_or_pos n with rfl | hpos
  · exact ⟨0, 0, -1074, by decide +kernel, by simp⟩
  rcases h.eq_or_lt with rfl | hlt
  · obtain ⟨x, hx⟩ := exists_shifted (m := 2 ^ 52) (k := 53) (by omega) (by omega) (by omega)
    exact ⟨x, _, _, hx, by norm_num⟩
  -- the highest bit of `n` is that of `2 ^ k`
  obtain ⟨k, hk, hk'⟩ : ∃ k, 2 ^ k ≤ n ∧ n < 2 ^ (k + 1) :=
    ⟨Nat.log 2 n, Nat.pow_log_le_self 2 hpos.ne', Nat.lt_pow_succ_log_self (by decide) n⟩
  have hle : k < 53 := (Nat.pow_lt_pow_iff_right (by decide)).1 (hk.trans_lt hlt)
  have hunit : 2 ^ k * 2 ^ (52 - k) = 2 ^ 52 := by
    rw [← pow_add, Nat.add_sub_cancel' (by omega)]
  have hlower : 2 ^ 52 ≤ n * 2 ^ (52 - k) := hunit ▸ Nat.mul_le_mul_right _ hk
  have hupper : n * 2 ^ (52 - k) < 2 ^ 53 := by
    have hdouble : 2 ^ (k + 1) * 2 ^ (52 - k) = 2 ^ 53 := by
      rw [pow_succ, Nat.mul_right_comm, hunit, ← pow_succ]
    exact hdouble ▸ Nat.mul_lt_mul_of_pos_right hk' (Nat.two_pow_pos _)
  obtain ⟨x, hx⟩ := exists_shifted hlower hupper hle.le
  refine ⟨x, _, _, hx, ?_⟩
  have hshift : (k : Int) - 52 = -((52 - k : Nat) : Int) := by omega
  rw [hshift, zpow_neg, zpow_natCast, Nat.cast_mul, Nat.cast_pow, Nat.cast_ofNat,
    mul_inv_cancel_right₀ (by positivity)]

end Lox.Number
