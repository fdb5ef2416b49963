-- SUMMARY: The laws that tie joining, shortening and repeating of strings together.
import Mathlib.Data.List.Infix
import Lox.Proofs.Number.Whole
import Lox.Proofs.Value.Count

/-!
## Arithmetic of strings

A plus sign joins two strings, a minus sign takes characters off the end of one, and a star repeats
one. The operators fit together like those of the numbers (`string_arithmetic_coherent`): what was
joined can be taken off again, counts that are taken off or repeated one after the other add up or
multiply, and of two ways to the same string neither fails where the other succeeds. Shortening
counts characters, the limit on repetition counts bytes.
-/

namespace Lox

open Number

/-- The product of two 64-bit words, unless it takes more than one word. -/
def wordProduct? (a b : UInt64) : Option UInt64 :=
  if a.toNat * b.toNat < 2 ^ 64 then some (a * b) else none

/-- The characters to take off are more than there are. -/
def FailsTooShort (r : Except Fault Value) : Prop :=
  ∃ length count, r = .error (.stringTooShort length count)

/-- The laws of two strings `s` and `t`, for the counts `m` and `n` as the numbers `x` and `y` and
their sum and product as numbers. -/
structure StringLaws (s t : String) (m n : Nat) (x y sum product : Float) : Prop where
  joined_shortened : ∀ z, IsCount z t.length → ∃ v,
    (Value.string s).add (.string t) = .ok v ∧ v.subtract (.number z) = .ok (.string s)
  shortened_iff : (∃ v, (Value.string s).subtract (.number x) = .ok v) ↔ m ≤ s.length
  shortened_prefix : ∀ v, (Value.string s).subtract (.number x) = .ok v →
    ∃ u : String, v = .string u ∧ u.length = s.length - m ∧ u.toList <+: s.toList
  shortened_sum :
    (∃ v, ((Value.string s).subtract (.number x) >>= (·.subtract (.number y))) = .ok v ∧
      (Value.string s).subtract (.number sum) = .ok v) ∨
    (FailsTooShort ((Value.string s).subtract (.number x) >>= (·.subtract (.number y))) ∧
      FailsTooShort ((Value.string s).subtract (.number sum)))
  repeated_iff : (∃ v, (Value.string s).multiply (.number x) = .ok v) ↔
    s.utf8ByteSize * m ≤ 2 ^ 28
  /-- No product that does not fit in a word is taken for one that does. -/
  repeated_in_words : ∀ size count : UInt64, size.toNat = s.utf8ByteSize → count.toNat = m →
    ((∃ v, (Value.string s).multiply (.number x) = .ok v) ↔
      ∃ total, wordProduct? size count = some total ∧ total.toNat ≤ 2 ^ 28)
  repeated_sum : ∀ w, (Value.string s).multiply (.number sum) = .ok w → ∃ u v,
    (Value.string s).multiply (.number x) = .ok u ∧
      (Value.string s).multiply (.number y) = .ok v ∧ u.add v = .ok w
  repeated_product : 1 ≤ n → ∀ w, (Value.string s).multiply (.number product) = .ok w →
    ((Value.string s).multiply (.number x) >>= (·.multiply (.number y))) = .ok w

variable {s t : String} {m n k : Nat} {x y z sum product : Float} {v w : Value}

-- ---------------------------------------------------------------------------
-- Counts
-- ---------------------------------------------------------------------------

theorem Number.IsCount.count? (h : IsCount x n) : count? x = some n := by
  have hmax : maxCount = 2 ^ 64 - 1 := rfl
  obtain ⟨hvalue, hle⟩ := h
  exact count?_eq_some_iff.2 ⟨n, hvalue, by omega, (min_eq_left hle).symm⟩

theorem exists_isCount (h : n ≤ 2 ^ 53) : ∃ x, IsCount x n := by
  have hmax : maxCount = 2 ^ 64 - 1 := rfl
  obtain ⟨x, m, q, hparts, hvalue⟩ := exists_whole h
  exact ⟨x, (hasValue_iff hparts).2 (by simpa using hvalue), by omega⟩

-- ---------------------------------------------------------------------------
-- Shortening
-- ---------------------------------------------------------------------------

/-- What is left of `s` without its last `n` characters. -/
def shortened (s : String) (n : Nat) : String :=
  String.ofList (s.toList.take (s.length - n))

theorem toList_shortened (s : String) (n : Nat) :
    (shortened s n).toList = s.toList.take (s.length - n) :=
  String.toList_ofList

theorem length_shortened (s : String) (n : Nat) : (shortened s n).length = s.length - n := by
  rw [← String.length_toList, toList_shortened, List.length_take, String.length_toList]
  omega

theorem shortened_shortened (s : String) (m n : Nat) :
    shortened (shortened s m) n = shortened s (m + n) := by
  rw [← String.toList_inj, toList_shortened, toList_shortened, toList_shortened, List.take_take,
    length_shortened, Nat.sub_sub, Nat.min_eq_left (by omega)]

theorem shortened_append (s t : String) : shortened (s ++ t) t.length = s := by
  rw [← String.toList_inj, toList_shortened, String.toList_append, String.length_append,
    Nat.add_sub_cancel, ← String.length_toList, List.take_left]

theorem subtract_eq (h : IsCount x n) (s : String) :
    (Value.string s).subtract (.number x) =
      if s.length < n then .error (.stringTooShort s.length n) else .ok (.string (shortened s n)) :=
  subtract_of_count? h.count? s

theorem subtract_of_le (h : IsCount x n) (hle : n ≤ s.length) :
    (Value.string s).subtract (.number x) = .ok (.string (shortened s n)) := by
  rw [subtract_eq h, if_neg (Nat.not_lt.2 hle)]

theorem subtract_of_lt (h : IsCount x n) (hlt : s.length < n) :
    (Value.string s).subtract (.number x) = .error (.stringTooShort s.length n) := by
  rw [subtract_eq h, if_pos hlt]

theorem subtract_eq_ok_iff (h : IsCount x n) :
    (Value.string s).subtract (.number x) = .ok v ↔
      n ≤ s.length ∧ v = .string (shortened s n) := by
  rcases Nat.lt_or_ge s.length n with hlt | hle
  · rw [subtract_of_lt h hlt]
    exact iff_of_false nofun fun hv => absurd hv.1 (Nat.not_le.2 hlt)
  · rw [subtract_of_le h hle, Except.ok.injEq, eq_comm]
    exact ⟨fun hv => ⟨hle, hv⟩, fun hv => hv.2⟩

/-- Shortening twice is shortening by the sum, and fails where this fails. -/
theorem subtract_subtract (hx : IsCount x m) (hy : IsCount y n) (hsum : IsCount sum (m + n))
    (s : String) :
    (∃ v, ((Value.string s).subtract (.number x) >>= (·.subtract (.number y))) = .ok v ∧
      (Value.string s).subtract (.number sum) = .ok v) ∨
    (FailsTooShort ((Value.string s).subtract (.number x) >>= (·.subtract (.number y))) ∧
      FailsTooShort ((Value.string s).subtract (.number sum))) := by
  rcases Nat.lt_or_ge s.length m with hlt | hle
  · rw [subtract_of_lt hx hlt, subtract_of_lt hsum (by omega)]
    exact .inr ⟨⟨_, _, rfl⟩, _, _, rfl⟩
  have hsecond : ((Value.string s).subtract (.number x) >>= (·.subtract (.number y))) =
      (Value.string (shortened s m)).subtract (.number y) := by
    rw [subtract_of_le hx hle]
    rfl
  rw [hsecond]
  rcases Nat.lt_or_ge s.length (m + n) with hlt | hle'
  · have hleft : (shortened s m).length < n := by
      rw [length_shortened]
      omega
    rw [subtract_of_lt hy hleft, subtract_of_lt hsum hlt]
    exact .inr ⟨⟨_, _, rfl⟩, _, _, rfl⟩
  · have hleft : n ≤ (shortened s m).length := by
      rw [length_shortened]
      omega
    rw [subtract_of_le hy hleft, subtract_of_le hsum hle', shortened_shortened]
    exact .inl ⟨_, rfl, rfl⟩

-- ---------------------------------------------------------------------------
-- Repeating
-- ---------------------------------------------------------------------------

theorem repeated_succ (s : String) (n : Nat) : repeated s (n + 1) = s ++ repeated s n := by
  rw [← String.toList_inj, String.toList_append, repeated_toList, repeated_toList,
    List.replicate_succ, List.flatten_cons]

theorem repeated_zero (s : String) : repeated s 0 = "" := by
  rw [← String.toList_inj, repeated_toList]
  rfl

theorem repeated_add (s : String) (m n : Nat) :
    repeated s (m + n) = repeated s m ++ repeated s n := by
  induction m with
  | zero => rw [Nat.zero_add, repeated_zero, String.empty_append]
  | succ m ih => rw [Nat.add_right_comm, repeated_succ, ih, repeated_succ, String.append_assoc]

theorem repeated_repeated (s : String) (m n : Nat) :
    repeated (repeated s m) n = repeated s (m * n) := by
  induction n with
  | zero => rw [Nat.mul_zero, repeated_zero, repeated_zero]
  | succ n ih => rw [repeated_succ, ih, ← repeated_add, Nat.mul_succ, Nat.add_comm]

theorem utf8ByteSize_repeated (s : String) (n : Nat) :
    (repeated s n).utf8ByteSize = s.utf8ByteSize * n := by
  induction n with
  | zero => rw [repeated_zero, Nat.mul_zero, String.utf8ByteSize_empty]
  | succ n ih => rw [repeated_succ, String.utf8ByteSize_append, ih, Nat.mul_succ, Nat.add_comm]

theorem multiply_eq_ok_iff (h : IsCount x n) :
    (Value.string s).multiply (.number x) = .ok v ↔
      s.utf8ByteSize * n ≤ 2 ^ 28 ∧ v = .string (repeated s n) := by
  rw [multiply_of_count? h.count?, copies, ← repeated_toList, String.ofList_toList]
  split
  · next hle =>
    rw [Except.ok.injEq, eq_comm]
    exact ⟨fun hv => ⟨hle, hv⟩, fun hv => hv.2⟩
  · next hgt =>
    refine iff_of_false (fun hv => ?_) fun hv => hgt hv.1
    cases hv

theorem multiply_isOk_iff (h : IsCount x n) :
    (∃ v, (Value.string s).multiply (.number x) = .ok v) ↔ s.utf8ByteSize * n ≤ 2 ^ 28 := by
  simp only [multiply_eq_ok_iff h]
  exact ⟨fun ⟨_, hle, _⟩ => hle, fun hle => ⟨_, hle, rfl⟩⟩

/-- A product that fits in a word is the product of the words. -/
theorem wordProduct?_le_iff {size count : UInt64} {limit : Nat} (hlimit : limit < 2 ^ 64) :
    (∃ total, wordProduct? size count = some total ∧ total.toNat ≤ limit) ↔
      size.toNat * count.toNat ≤ limit := by
  unfold wordProduct?
  split
  · next hlt =>
    simp only [Option.some_inj, exists_eq_left', UInt64.toNat_mul, Nat.mod_eq_of_lt hlt]
  · next hge =>
    refine iff_of_false nofun ?_
    omega

theorem multiply_add (hx : IsCount x m) (hy : IsCount y n) (hsum : IsCount sum (m + n))
    (hw : (Value.string s).multiply (.number sum) = .ok w) :
    ∃ u v, (Value.string s).multiply (.number x) = .ok u ∧
      (Value.string s).multiply (.number y) = .ok v ∧ u.add v = .ok w := by
  obtain ⟨hle, rfl⟩ := (multiply_eq_ok_iff hsum).1 hw
  rw [Nat.mul_add] at hle
  refine ⟨_, _, (multiply_eq_ok_iff hx).2 ⟨by omega, rfl⟩,
    (multiply_eq_ok_iff hy).2 ⟨by omega, rfl⟩, ?_⟩
  rw [repeated_add]
  rfl

theorem multiply_multiply (hx : IsCount x m) (hy : IsCount y n) (hproduct : IsCount product (m * n))
    (hn : 1 ≤ n) (hw : (Value.string s).multiply (.number product) = .ok w) :
    ((Value.string s).multiply (.number x) >>= (·.multiply (.number y))) = .ok w := by
  obtain ⟨hle, rfl⟩ := (multiply_eq_ok_iff hproduct).1 hw
  -- with no copy at all, the first product could be too long
  have hfirst : s.utf8ByteSize * m ≤ s.utf8ByteSize * (m * n) :=
    Nat.mul_le_mul_left _ (Nat.le_mul_of_pos_right m hn)
  rw [(multiply_eq_ok_iff hx).2 ⟨hfirst.trans hle, rfl⟩]
  refine (multiply_eq_ok_iff hy).2 ⟨?_, ?_⟩
  · rwa [utf8ByteSize_repeated, Nat.mul_assoc]
  · rw [repeated_repeated]

-- ---------------------------------------------------------------------------
-- All laws
-- ---------------------------------------------------------------------------

theorem stringLaws (hx : IsCount x m) (hy : IsCount y n) (hsum : IsCount sum (m + n))
    (hproduct : IsCount product (m * n)) (s t : String) :
    StringLaws s t m n x y sum product where
  joined_shortened z hz := by
    have hle : t.length ≤ (s ++ t).length := by simp
    have hshortened := subtract_of_le hz hle
    rw [shortened_append] at hshortened
    exact ⟨.string (s ++ t), rfl, hshortened⟩
  shortened_iff := by
    simp only [subtract_eq_ok_iff hx]
    exact ⟨fun ⟨_, hle, _⟩ => hle, fun hle => ⟨_, hle, rfl⟩⟩
  shortened_prefix v hv := by
    obtain ⟨-, rfl⟩ := (subtract_eq_ok_iff hx).1 hv
    exact ⟨_, rfl, length_shortened s m, toList_shortened s m ▸ List.take_prefix _ _⟩
  shortened_sum := subtract_subtract hx hy hsum s
  repeated_iff := multiply_isOk_iff hx
  repeated_in_words size count hsize hcount := by
    rw [multiply_isOk_iff hx, wordProduct?_le_iff (by decide), hsize, hcount]
  repeated_sum _ hw := multiply_add hx hy hsum hw
  repeated_product hn _ hw := multiply_multiply hx hy hproduct hn hw

/-- Counts with a sum and a product up to `2 ^ 53` are numbers, and for all numbers that are these
counts the operators on strings go together. -/
theorem string_arithmetic_coherent {m n : Nat} (hsum : m + n ≤ 2 ^ 53) (hproduct : m * n ≤ 2 ^ 53)
    (s t : String) :
    (∃ x y sum product,
      IsCount x m ∧ IsCount y n ∧ IsCount sum (m + n) ∧ IsCount product (m * n)) ∧
    (t.length ≤ 2 ^ 53 → ∃ z, IsCount z t.length) ∧
    ∀ x y sum product, IsCount x m → IsCount y n → IsCount sum (m + n) →
      IsCount product (m * n) → StringLaws s t m n x y sum product := by
  refine ⟨?_, exists_isCount, fun x y sum product hx hy hs hp => stringLaws hx hy hs hp s t⟩
  obtain ⟨x, hx⟩ := exists_isCount (n := m) (by omega)
  obtain ⟨y, hy⟩ := exists_isCount (n := n) (by omega)
  obtain ⟨z, hz⟩ := exists_isCount hsum
  obtain ⟨p, hp⟩ := exists_isCount hproduct
  exact ⟨x, y, z, p, hx, hy, hz, hp⟩

/-- A string of two characters and three bytes, of which three characters are to be taken off. -/
theorem accented_string_obeys_laws :
    1 + 2 ≤ 2 ^ 53 ∧ 1 * 2 ≤ 2 ^ 53 ∧ StringLaws "né" "é" 1 2 1 2 3 2 := by
  have hone : IsCount 1 1 := ⟨⟨false, 2 ^ 52, -52, by decide +kernel, by norm_num⟩, by decide⟩
  have htwo : IsCount 2 2 := ⟨⟨false, 2 ^ 52, -51, by decide +kernel, by norm_num⟩, by decide⟩
  have hthree : IsCount 3 3 :=
    ⟨⟨false, 3 * 2 ^ 51, -51, by decide +kernel, by norm_num⟩, by decide⟩
  have hsum : 1 + 2 ≤ 2 ^ 53 := by omega
  have hproduct : 1 * 2 ≤ 2 ^ 53 := by omega
  obtain ⟨-, -, hlaws⟩ := string_arithmetic_coherent hsum hproduct "né" "é"
  exact ⟨hsum, hproduct, hlaws 1 2 3 2 hone htwo hthree htwo⟩

end Lox
