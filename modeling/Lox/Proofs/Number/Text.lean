-- SUMMARY: The text of a finite number is a numeral, and tells the number.
import Mathlib.Data.List.TakeWhile
import Lox.Number.Text
import Lox.Proofs.Number.Shortest

/-!
## Texts of numbers

The digits that a finite number is written with are a numeral, and the numeral rounds to the number
(`magnitude_numeral`). A numeral rounds to one number only, so no two finite numbers have the same
text (`text_injective`).
-/

namespace Lox.Number

variable {m m' n : Nat} {q q' : Int}

/-- What a numeral stands for before it is rounded. -/
def Numeral.rational (n : Numeral) : ℚ :=
  digitsValue (n.whole ++ n.fraction) / 10 ^ n.fraction.length

-- ---------------------------------------------------------------------------
-- Digits
-- ---------------------------------------------------------------------------

theorem digitsValue_eq (cs : List Char) : digitsValue cs = Nat.ofDigitChars 10 cs 0 :=
  Nat.ofDigitChars_eq_foldl.symm

theorem digitsValue_append (cs ds : List Char) :
    digitsValue (cs ++ ds) = 10 ^ ds.length * digitsValue cs + digitsValue ds := by
  simp only [digitsValue_eq]
  rw [Nat.ofDigitChars_append, Nat.ofDigitChars_eq_ofDigitChars_zero]

@[simp] theorem digitsValue_toDigits (n : Nat) : digitsValue (Nat.toDigits 10 n) = n := by
  rw [digitsValue_eq, Nat.ofDigitChars_ten_toDigits]

@[simp] theorem digitsValue_zeros (n : Nat) : digitsValue (List.replicate n '0') = 0 := by
  rw [digitsValue_eq, Nat.ofDigitChars_replicate_zero, Nat.mul_zero]

theorem isDigit_of_mem_toDigits {c : Char} (h : c ∈ Nat.toDigits 10 n) : c.isDigit = true :=
  Nat.isDigit_of_mem_toDigits (by decide) (by decide) h

theorem isDigit_of_mem_zeros {c : Char} (h : c ∈ List.replicate n '0') : c.isDigit = true := by
  rw [List.eq_of_mem_replicate h]
  rfl

theorem isDigit_of_mem_padded {c : Char} {width : Nat} (h : c ∈ padded width n) :
    c.isDigit = true :=
  (List.mem_append.1 h).elim isDigit_of_mem_zeros isDigit_of_mem_toDigits

theorem length_padded {width : Nat} (hwidth : 0 < width) (h : n < 10 ^ width) :
    (padded width n).length = width := by
  have hlength := (Nat.length_toDigits_le_iff (by decide) hwidth).2 h
  unfold padded
  rw [List.length_append, List.length_replicate]
  omega

@[simp] theorem digitsValue_padded (width n : Nat) : digitsValue (padded width n) = n := by
  unfold padded
  rw [digitsValue_append, digitsValue_zeros, digitsValue_toDigits, Nat.mul_zero, Nat.zero_add]

-- ---------------------------------------------------------------------------
-- Decimals
-- ---------------------------------------------------------------------------

theorem Numeral.ofChars?_whole {cs : List Char} (hne : cs ≠ []) (h : ∀ c ∈ cs, c.isDigit = true) :
    ofChars? cs = some ⟨cs, []⟩ := by
  unfold ofChars?
  rw [List.takeWhile_eq_self_iff.2 h, List.dropWhile_eq_nil_iff.2 h]
  simp [hne]

theorem Numeral.ofChars?_point {cs ds : List Char} (hne : cs ≠ [])
    (h : ∀ c ∈ cs, c.isDigit = true) (hne' : ds ≠ []) (h' : ∀ c ∈ ds, c.isDigit = true) :
    ofChars? (cs ++ '.' :: ds) = some ⟨cs, ds⟩ := by
  have hwhole : (cs ++ '.' :: ds).takeWhile Char.isDigit = cs := by
    rw [List.takeWhile_append_of_pos h]
    exact List.append_nil cs
  have hfraction : (cs ++ '.' :: ds).dropWhile Char.isDigit = '.' :: ds :=
    List.dropWhile_append_of_pos h
  unfold ofChars?
  rw [hwhole, hfraction]
  simpa [hne, hne'] using h'

/-- A decimal is written as a numeral that stands for it. -/
theorem Decimal.numeral (d : Decimal) :
    ∃ n, Numeral.ofChars? d.chars = some n ∧ n.rational = d.value := by
  obtain ⟨digits, exponent⟩ := d
  unfold chars
  dsimp only
  split
  · next h =>
    obtain ⟨zeros, rfl⟩ := Int.eq_ofNat_of_zero_le h
    refine ⟨_, Numeral.ofChars?_whole (by simp) ?_, ?_⟩
    · exact List.forall_mem_append.2
        ⟨fun c => isDigit_of_mem_toDigits, fun c => isDigit_of_mem_zeros⟩
    · simp [Numeral.rational, value, digitsValue_append, mul_comm]
  · next h =>
    obtain ⟨places, hplaces⟩ := Int.eq_ofNat_of_zero_le (a := -exponent) (by omega)
    obtain rfl : exponent = -places := by omega
    have hpos : 0 < places := by omega
    have hunit : 0 < 10 ^ places := Nat.pow_pos (by decide)
    have hlength : (padded places (digits % 10 ^ places)).length = places :=
      length_padded hpos (Nat.mod_lt _ hunit)
    rw [neg_neg, Int.toNat_natCast, Nat.pow_eq]
    refine ⟨_, Numeral.ofChars?_point Nat.toDigits_ne_nil (fun c => isDigit_of_mem_toDigits)
      (List.ne_nil_of_length_pos (by omega)) (fun c => isDigit_of_mem_padded), ?_⟩
    rw [Numeral.rational, digitsValue_append, hlength, digitsValue_toDigits, digitsValue_padded,
      Nat.div_add_mod, value, zpow_neg, zpow_natCast, div_eq_mul_inv]

theorem magnitude_numeral (m : Nat) (q : Int) :
    ∃ n, Numeral.ofChars? (magnitude m q) = some n ∧ Rounds m q n.rational := by
  unfold magnitude
  split
  · next h =>
    subst h
    refine ⟨⟨['0'], []⟩, rfl, ?_⟩
    have hself := rounds_self 0 q
    simpa [Numeral.rational, digitsValue] using hself
  · obtain ⟨n, hn, hvalue⟩ := (shortest m q).numeral
    exact ⟨n, hn, hvalue ▸ shortest_rounds m q⟩

theorem magnitude_injective (hm : Normal m q) (hm' : Normal m' q')
    (h : magnitude m q = magnitude m' q') : m = m' ∧ q = q' := by
  obtain ⟨n, hn, hrounds⟩ := magnitude_numeral m q
  obtain ⟨n', hn', hrounds'⟩ := magnitude_numeral m' q'
  obtain rfl : n = n' := Option.some.inj (hn.symm.trans (h ▸ hn'))
  exact hrounds.unique hrounds' hm hm'

/-- A numeral starts with a digit, and has only digits and a point. -/
theorem Numeral.chars_of_ofChars? {cs : List Char} {n : Numeral} (h : ofChars? cs = some n) :
    (∃ c ds, cs = c :: ds ∧ c.isDigit = true) ∧ ∀ c ∈ cs, c.isDigit = true ∨ c = '.' := by
  have hwhole {c : Char} (hc : c ∈ cs.takeWhile Char.isDigit) : c.isDigit = true :=
    List.all_eq_true.1 List.all_takeWhile c hc
  have hcs := List.takeWhile_append_dropWhile (p := Char.isDigit) (l := cs)
  unfold ofChars? at h
  dsimp only at h
  split at h
  · cases h
  · next hne =>
    obtain ⟨c, ds, hds⟩ := List.exists_cons_of_ne_nil hne
    rw [← hcs]
    refine ⟨⟨c, _, by rw [hds]; rfl, hwhole (by rw [hds]; exact List.mem_cons_self)⟩,
      List.forall_mem_append.2 ⟨fun c hc => .inl (hwhole hc), ?_⟩⟩
    split at h
    · next hrest =>
      rw [hrest]
      exact nofun
    · next fraction hrest =>
      split at h
      · next hfraction =>
        rw [hrest]
        exact List.forall_mem_cons.2
          ⟨.inr rfl, fun c hc => .inl (List.all_eq_true.1 hfraction.2 c hc)⟩
      · cases h
    · cases h

-- ---------------------------------------------------------------------------
-- Numbers
-- ---------------------------------------------------------------------------

/-- The number is neither infinite nor no number at all. -/
def Finite (x : Float) : Prop :=
  ∃ negative m q, parts x = .finite negative m q

theorem Parts.normal {bits : Nat} {negative : Bool} (h : ofBits bits = .finite negative m q) :
    Normal m q := by
  unfold ofBits at h
  simp only [Nat.pow_eq, Int.ofNat_eq_natCast] at h
  split at h
  · split at h <;> cases h
  · split at h
    · cases h
      exact ⟨by omega, by omega, by omega⟩
    · cases h
      exact ⟨by omega, by omega, by omega⟩

/-- The bits of a finite number can be put together again. -/
theorem Parts.bits_eq {bits : Nat} {negative : Bool} (hbits : bits < 2 ^ 64)
    (h : ofBits bits = .finite negative m q) :
    bits = (if negative then 2 ^ 63 else 0) +
      ((if m < 2 ^ 52 then 0 else (q + 1075).toNat) * 2 ^ 52 + m % 2 ^ 52) := by
  unfold ofBits at h
  simp only [Nat.pow_eq, Int.ofNat_eq_natCast] at h
  have hsign : (if bits / 2 ^ 63 % 2 == 1 then 2 ^ 63 else 0) = bits / 2 ^ 63 * 2 ^ 63 := by
    split
    · next hone =>
      have := beq_iff_eq.1 hone
      omega
    · next hone =>
      have : ¬ bits / 2 ^ 63 % 2 = 1 := fun h => hone (beq_iff_eq.2 h)
      omega
  split at h
  · split at h <;> cases h
  · split at h
    · cases h
      rw [hsign]
      split <;> omega
    · cases h
      rw [hsign]
      split <;> omega

theorem parts_injective {x y : Float} (hx : Finite x) (h : parts x = parts y) : x = y := by
  obtain ⟨negative, m, q, hparts⟩ := hx
  have hbits : x.toBits.toNat = y.toBits.toNat :=
    (Parts.bits_eq x.toBits.toNat_lt hparts).trans
      (Parts.bits_eq y.toBits.toNat_lt (h.symm.trans hparts)).symm
  have hbits : x.toModel.toBits = y.toModel.toBits := UInt64.toNat_inj.1 hbits
  obtain ⟨⟨xbits, _⟩⟩ := x
  obtain ⟨⟨ybits, _⟩⟩ := y
  cases hbits
  rfl

/-- The sign of a number is no digit, so it can be told from the digits. -/
theorem signed_injective {b b' : Bool}
    (h : (if b then '-' :: magnitude m q else magnitude m q) =
      if b' then '-' :: magnitude m' q' else magnitude m' q') :
    b = b' ∧ magnitude m q = magnitude m' q' := by
  obtain ⟨n, hn, -⟩ := magnitude_numeral m q
  obtain ⟨n', hn', -⟩ := magnitude_numeral m' q'
  obtain ⟨⟨c, cs, hcs, hc⟩, -⟩ := Numeral.chars_of_ofChars? hn
  obtain ⟨⟨c', cs', hcs', hc'⟩, -⟩ := Numeral.chars_of_ofChars? hn'
  have hminus {d : Char} (hd : d.isDigit = true) : d ≠ '-' := by
    rintro rfl
    cases hd
  cases b <;> cases b'
  · exact ⟨rfl, h⟩
  · rw [hcs] at h
    exact absurd (List.cons.inj h).1 (hminus hc)
  · rw [hcs'] at h
    exact absurd (List.cons.inj h).1.symm (hminus hc')
  · exact ⟨rfl, (List.cons.inj h).2⟩

theorem text_of_parts {x : Float} {b : Bool} (h : parts x = .finite b m q) :
    (text x).toList = if b then '-' :: magnitude m q else magnitude m q := by
  rw [text, h]
  exact String.toList_ofList

/-- No two finite numbers have the same text. -/
theorem text_injective {x y : Float} (hx : Finite x) (hy : Finite y) (h : text x = text y) :
    x = y := by
  obtain ⟨b, m, q, hparts⟩ := hx
  obtain ⟨b', m', q', hparts'⟩ := hy
  have hsigned := congrArg String.toList h
  rw [text_of_parts hparts, text_of_parts hparts'] at hsigned
  obtain ⟨rfl, hmagnitude⟩ := signed_injective hsigned
  obtain ⟨rfl, rfl⟩ :=
    magnitude_injective (Parts.normal hparts) (Parts.normal hparts') hmagnitude
  exact parts_injective ⟨_, _, _, hparts⟩ (hparts.trans hparts'.symm)

/-- The text of a finite number starts with a digit or a minus sign, and has only digits and a point
after it. -/
theorem text_chars {x : Float} (hx : Finite x) :
    ∃ c cs, (text x).toList = c :: cs ∧ (c.isDigit = true ∨ c = '-') ∧
      ∀ d ∈ cs, d.isDigit = true ∨ d = '.' := by
  obtain ⟨b, m, q, hparts⟩ := hx
  obtain ⟨n, hn, -⟩ := magnitude_numeral m q
  obtain ⟨⟨c, cs, hcs, hc⟩, hall⟩ := Numeral.chars_of_ofChars? hn
  rw [text_of_parts hparts]
  cases b
  · exact ⟨c, cs, hcs, .inl hc, fun d hd => hall d (by rw [hcs]; exact List.mem_cons_of_mem c hd)⟩
  · exact ⟨'-', _, rfl, .inr rfl, hall⟩

end Lox.Number
