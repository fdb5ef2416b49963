-- SUMMARY: Which numbers are converted to counts exactly.
import Mathlib.Tactic.NormNum
import Lox.Proofs.Number.Shortest
import Lox.Value.Operator

/-!
## Counts

A minus sign and a star take a count from a number. The counts are the naturals below `2 ^ 64`, and
a number that is one of them is converted to it. The bound that numbers are compared with is a
double itself, and no double is nearer to the greatest count than `2 ^ 64`: this one number passes
for a count and is not (`counts_exactly_iff`).
-/

namespace Lox

namespace Number

/-- The number `x` is finite and stands for `v`. -/
def HasValue (x : Float) (v : ℚ) : Prop :=
  ∃ negative m q, parts x = .finite negative m q ∧ v = (if negative then -1 else 1) * (m * 2 ^ q)

/-- The number `x` is the count `n`. -/
def IsCount (x : Float) (n : Nat) : Prop :=
  HasValue x n ∧ n ≤ maxCount

variable {x : Float} {v w : ℚ} {negative : Bool} {m n : Nat} {q : Int}

-- ---------------------------------------------------------------------------
-- Values
-- ---------------------------------------------------------------------------

theorem hasValue_iff (h : parts x = .finite negative m q) :
    HasValue x v ↔ v = (if negative then -1 else 1) * (m * 2 ^ q) := by
  constructor
  · rintro ⟨_, _, _, h', hv⟩
    cases h.symm.trans h'
    exact hv
  · exact fun hv => ⟨_, _, _, h, hv⟩

theorem HasValue.unique (h : HasValue x v) (h' : HasValue x w) : v = w := by
  obtain ⟨negative, m, q, hparts, hv⟩ := h
  rw [hv, (hasValue_iff hparts).1 h']

theorem whole?_eq_some_iff : whole? m q = some n ↔ (n : ℚ) = m * 2 ^ q := by
  rw [zpow_eq_div two_ne_zero, whole?]
  by_cases hq : 0 ≤ q
  · have hneg : (-q).toNat = 0 := by omega
    rw [if_pos hq, Option.some_inj, hneg, pow_zero, div_one, eq_comm]
    exact_mod_cast Iff.rfl
  · have hpos : q.toNat = 0 := by omega
    have hunit : (2 ^ (-q).toNat : ℚ) ≠ 0 := by positivity
    have hvalue : (n : ℚ) = m * (2 ^ q.toNat / 2 ^ (-q).toNat) ↔ n * 2 ^ (-q).toNat = m := by
      rw [hpos, pow_zero, mul_one_div, eq_div_iff hunit]
      exact_mod_cast Iff.rfl
    rw [if_neg hq, hvalue, Nat.pow_eq]
    split
    · next hdvd =>
      rw [Option.some_inj, Nat.div_eq_iff_eq_mul_left (by positivity) (Nat.dvd_of_mod_eq_zero hdvd),
        eq_comm]
    · next hdvd =>
      refine iff_of_false nofun ?_
      rintro rfl
      exact hdvd (Nat.mul_mod_left ..)

/-- A number is a natural if it is not below zero and has no fraction. -/
theorem hasValue_natCast_iff (h : parts x = .finite negative m q) :
    HasValue x n ↔ ¬ (negative = true ∧ m ≠ 0) ∧ whole? m q = some n := by
  rw [hasValue_iff h, whole?_eq_some_iff]
  have hpow : (0 : ℚ) < 2 ^ q := by positivity
  cases negative with
  | false => simp
  | true =>
    -- negative zero is the natural zero
    by_cases hm : m = 0
    · simp [hm]
    · have hm' : (0 : ℚ) < m := Nat.cast_pos.2 (Nat.pos_of_ne_zero hm)
      have hn : (0 : ℚ) ≤ n := n.cast_nonneg
      have hvalue : (0 : ℚ) < m * 2 ^ q := mul_pos hm' hpow
      refine iff_of_false (fun h => ?_) (fun h => h.1 ⟨rfl, hm⟩)
      rw [if_pos rfl, neg_one_mul] at h
      linarith

-- ---------------------------------------------------------------------------
-- Counts
-- ---------------------------------------------------------------------------

theorem not_hasValue (h : ∀ negative m q, parts x ≠ .finite negative m q) : ¬ HasValue x v := by
  rintro ⟨negative, m, q, hparts, -⟩
  exact h negative m q hparts

/-- Numbers up to `2 ^ 64` pass for counts, and `2 ^ 64` for the greatest. -/
theorem count?_eq_some_iff :
    count? x = some n ↔ ∃ k : Nat, HasValue x k ∧ k ≤ 2 ^ 64 ∧ n = min k maxCount := by
  unfold count?
  split
  · next h => exact iff_of_false nofun fun ⟨_, hk, _⟩ => not_hasValue (by simp [h]) hk
  · next h => exact iff_of_false nofun fun ⟨_, hk, _⟩ => not_hasValue (by simp [h]) hk
  · next negative m q h =>
    simp only [hasValue_natCast_iff h]
    split
    · next hsign => exact iff_of_false nofun fun ⟨_, ⟨hk, _⟩, _⟩ => hk hsign
    · next hsign =>
      cases hwhole : whole? m q with
      | none => simp
      | some k =>
        simp only [hsign, not_false_eq_true, true_and, Option.some_inj, exists_eq_left']
        split
        · next hk =>
          rw [Option.some_inj, eq_comm]
          exact ⟨fun h => ⟨hk, h⟩, fun h => h.2⟩
        · next hk => exact iff_of_false nofun fun h => hk h.1

theorem count?_eq_some_iff_isCount (h : ¬ HasValue x (2 ^ 64)) :
    count? x = some n ↔ IsCount x n := by
  have hmax : maxCount = 2 ^ 64 - 1 := rfl
  rw [count?_eq_some_iff]
  constructor
  · rintro ⟨k, hk, hbound, rfl⟩
    have hne : k ≠ 2 ^ 64 := by
      rintro rfl
      exact h (by exact_mod_cast hk)
    have hle : k ≤ maxCount := by omega
    rw [min_eq_left hle]
    exact ⟨hk, hle⟩
  · rintro ⟨hn, hle⟩
    exact ⟨n, hn, by omega, (min_eq_left hle).symm⟩

theorem count?_of_two_pow (h : HasValue x (2 ^ 64)) : count? x = some maxCount :=
  count?_eq_some_iff.2 ⟨2 ^ 64, by exact_mod_cast h, le_rfl, rfl⟩

end Number

open Number

-- ---------------------------------------------------------------------------
-- Operators
-- ---------------------------------------------------------------------------

/-- A string without its last `n` characters. -/
def withoutLast (s : String) (n : Nat) : Except Fault Value :=
  if s.length < n then .error (.stringTooShort s.length n)
  else .ok (.string (String.ofList (s.toList.take (s.length - n))))

/-- A string `n` times, in at most `2 ^ 28` bytes. -/
def copies (s : String) (n : Nat) : Except Fault Value :=
  if s.utf8ByteSize * n ≤ 2 ^ 28 then
    .ok (.string (String.ofList (List.replicate n s.toList).flatten))
  else .error (.stringTooLong s.utf8ByteSize n (2 ^ 28))

/-- The number `x` is converted to a count exactly: if it is one, then both operators compute with
it and report it, and otherwise both report that it is none. -/
structure CountsExactly (x : Float) : Prop where
  converted : ∀ n, count? x = some n ↔ IsCount x n
  shortened : ∀ n, IsCount x n → ∀ s, (Value.string s).subtract (.number x) = withoutLast s n
  repeated : ∀ n, IsCount x n → ∀ s, (Value.string s).multiply (.number x) = copies s n
  refused : (∀ n, ¬ IsCount x n) → ∀ s,
    (Value.string s).subtract (.number x) = .error (.invalidCount x) ∧
      (Value.string s).multiply (.number x) = .error (.invalidCount x)

variable {x : Float} {n : Nat}

theorem repeated_toList (s : String) (n : Nat) :
    (repeated s n).toList = (List.replicate n s.toList).flatten := by
  unfold repeated
  split
  · next hempty => simp [String.isEmpty_iff.1 hempty]
  · induction n with
    | zero => rfl
    | succ n ih =>
      rw [Nat.repeat, String.toList_append, ih, List.replicate_succ', List.flatten_concat]

theorem countOf_of_count? (h : count? x = some n) : countOf x = .ok n := by
  rw [countOf, h]

theorem countOf_of_none (h : count? x = none) : countOf x = .error (.invalidCount x) := by
  rw [countOf, h]

theorem subtract_of_count? (h : count? x = some n) (s : String) :
    (Value.string s).subtract (.number x) = withoutLast s n := by
  rw [Value.subtract, countOf_of_count? h]
  change (do return Value.string (← dropEnd s n)) = _
  unfold dropEnd withoutLast
  split <;> rfl

theorem multiply_of_count? (h : count? x = some n) (s : String) :
    (Value.string s).multiply (.number x) = copies s n := by
  rw [Value.multiply, countOf_of_count? h, copies, ← repeated_toList, String.ofList_toList]
  change (do return Value.string (← repeatString s n)) = _
  unfold repeatString repeatLimit
  rw [Nat.pow_eq]
  split <;> rfl

/-- The operators are exact if the conversion is. -/
theorem CountsExactly.of_converted (h : ∀ n, count? x = some n ↔ IsCount x n) :
    CountsExactly x where
  converted := h
  shortened n hn := subtract_of_count? ((h n).2 hn)
  repeated n hn := multiply_of_count? ((h n).2 hn)
  refused hnone s := by
    have hcount : count? x = none :=
      Option.eq_none_iff_forall_not_mem.2 fun n hn => hnone n ((h n).1 hn)
    rw [Value.subtract, Value.multiply, countOf_of_none hcount]
    exact ⟨rfl, rfl⟩

theorem not_countsExactly (h : HasValue x (2 ^ 64)) : ¬ CountsExactly x := by
  intro hexactly
  have hcount := (hexactly.converted _).1 (count?_of_two_pow h)
  have hmax := hcount.1.unique h
  norm_num [maxCount] at hmax

/-- Every number is converted exactly but one: `2 ^ 64` is not a count, and is taken for the
greatest one. -/
theorem counts_exactly_iff (x : Float) :
    (CountsExactly x ↔ ¬ HasValue x (2 ^ 64)) ∧
      (HasValue x (2 ^ 64) → count? x = some (2 ^ 64 - 1)) :=
  ⟨⟨fun h hvalue => not_countsExactly hvalue h,
    fun h => .of_converted fun _ => count?_eq_some_iff_isCount h⟩, count?_of_two_pow⟩

/-- The number `2 ^ 64` is reported as one less. -/
theorem two_pow_counts_one_less :
    let x : Float := 18446744073709551616
    HasValue x (2 ^ 64) ∧ ¬ CountsExactly x ∧
      (Value.string "a").subtract (.number x) = .error (.stringTooShort 1 (2 ^ 64 - 1)) := by
  intro x
  have hvalue : HasValue x (2 ^ 64) := ⟨false, 2 ^ 52, 12, by decide +kernel, by norm_num⟩
  exact ⟨hvalue, not_countsExactly hvalue, subtract_of_count? (count?_of_two_pow hvalue) "a"⟩

end Lox
