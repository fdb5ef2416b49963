-- SUMMARY: Quoted strings stay on one line, end where they end, and tell the string.
import Lox.Text.Quoted

/-!
## Quoted strings

No escape is the start of another one, and none starts with a quote. So the end of a quoted string
is seen whatever follows it, and the string can be told from what stands between the quotes
(`escape_quote_inj`). There are no line breaks in it.
-/

namespace Lox

variable {b n n' : Nat} {c d : Char} {cs ds r r' : List Char}

/-- Where a character comes first is seen in both texts. -/
theorem append_cons_inj_of_not_mem (hcs : c ∉ cs) (hds : c ∉ ds)
    (h : cs ++ c :: r = ds ++ c :: r') : cs = ds ∧ r = r' := by
  induction cs generalizing ds with
  | nil =>
    cases ds with
    | nil => exact ⟨rfl, (List.cons.inj h).2⟩
    | cons => exact absurd ((List.cons.inj h).1 ▸ List.mem_cons_self) hds
  | cons x cs ih =>
    cases ds with
    | nil => exact absurd ((List.cons.inj h).1 ▸ List.mem_cons_self) hcs
    | cons y ds =>
      obtain ⟨rfl, hrest⟩ := List.cons.inj h
      obtain ⟨rfl, rfl⟩ :=
        ih (List.not_mem_of_not_mem_cons hcs) (List.not_mem_of_not_mem_cons hds) hrest
      exact ⟨rfl, rfl⟩

-- ---------------------------------------------------------------------------
-- Digits
-- ---------------------------------------------------------------------------

theorem digitChar_injective : ∀ n < 16, ∀ n' < 16, n.digitChar = n'.digitChar → n = n' := by
  decide

theorem exists_digit_of_mem_toDigits (hb : 1 < b) (h : c ∈ Nat.toDigits b n) :
    ∃ d < b, c = d.digitChar := by
  induction n using Nat.strongRecOn with
  | ind n ih =>
    rw [Nat.toDigits_eq_if hb] at h
    split at h
    · next hn => exact ⟨n, hn, List.mem_singleton.1 h⟩
    · next hn =>
      rcases List.mem_append.1 h with h | h
      · exact ih (n / b) (Nat.div_lt_self (by omega) hb) h
      · exact ⟨n % b, Nat.mod_lt n (by omega), List.mem_singleton.1 h⟩

theorem toDigits_injective (hb : 1 < b) (hb' : b ≤ 16) (h : Nat.toDigits b n = Nat.toDigits b n') :
    n = n' := by
  induction n using Nat.strongRecOn generalizing n' with
  | ind n ih =>
    rw [Nat.toDigits_eq_if hb, Nat.toDigits_eq_if hb (n := n')] at h
    split at h <;> split at h
    · next hn hn' => exact digitChar_injective n (by omega) n' (by omega) (List.cons.inj h).1
    · next => exact absurd (List.append_eq_singleton_iff.1 h.symm) (by simp)
    · next => exact absurd (List.append_eq_singleton_iff.1 h) (by simp)
    · next hn hn' =>
      obtain ⟨hdiv, hmod⟩ := List.append_inj' h rfl
      have hmod := digitChar_injective (n % b) (Nat.lt_of_lt_of_le (Nat.mod_lt n (by omega)) hb')
        (n' % b) (Nat.lt_of_lt_of_le (Nat.mod_lt n' (by omega)) hb') (List.cons.inj hmod).1
      have hdiv := ih (n / b) (Nat.div_lt_self (by omega) hb) hdiv
      rw [← Nat.div_add_mod n b, ← Nat.div_add_mod n' b, hdiv, hmod]

-- ---------------------------------------------------------------------------
-- Escapes
-- ---------------------------------------------------------------------------

/-- The escapes of two characters. -/
def shortEscape? (c : Char) : Option Char :=
  match c with
  | '"' => some '"'
  | '\\' => some '\\'
  | '\n' => some 'n'
  | '\r' => some 'r'
  | '\t' => some 't'
  | '\x00' => some '0'
  | _ => none

/-- The character that such an escape stands for. -/
def shortMeaning (x : Char) : Char :=
  match x with
  | 'n' => '\n'
  | 'r' => '\r'
  | 't' => '\t'
  | '0' => '\x00'
  | x => x

theorem shortMeaning_of_shortEscape? {x : Char} (h : shortEscape? c = some x) :
    shortMeaning x = c := by
  unfold shortEscape? at h
  split at h <;> cases h <;> rfl

theorem shortEscape?_ne {x : Char} (h : shortEscape? c = some x) : x ≠ 'u' ∧ x ≠ '\n' := by
  unfold shortEscape? at h
  split at h <;> cases h <;> decide

theorem ne_of_shortEscape?_none (h : shortEscape? c = none) : c ≠ '"' ∧ c ≠ '\\' ∧ c ≠ '\n' := by
  refine ⟨?_, ?_, ?_⟩ <;> rintro rfl <;> cases h

/-- What a character is written as. -/
inductive Escaped (c : Char) : List Char → Prop where
  | plain (h : shortEscape? c = none) : Escaped c [c]
  | short {x} (h : shortEscape? c = some x) : Escaped c ['\\', x]
  | code : Escaped c (escapeCode c)

theorem escapeChar_escaped (c : Char) : Escaped c (escapeChar c) := by
  unfold escapeChar
  split
  case h_7 hquote hbackslash hbreak hreturn htab hnull =>
    split
    · exact .code
    · refine .plain ?_
      unfold shortEscape?
      split
      · exact absurd rfl hquote
      · exact absurd rfl hbackslash
      · exact absurd rfl hbreak
      · exact absurd rfl hreturn
      · exact absurd rfl htab
      · exact absurd rfl hnull
      · rfl
  all_goals exact .short rfl

namespace Escaped

theorem no_break (h : Escaped c cs) : '\n' ∉ cs := by
  cases h with
  | plain h =>
    rw [List.mem_singleton]
    exact (ne_of_shortEscape?_none h).2.2.symm
  | short h =>
    have := (shortEscape?_ne h).2.symm
    simpa using this
  | code =>
    have hdigits : '\n' ∉ Nat.toDigits 16 c.toNat := fun h => by
      obtain ⟨d, hd, hbreak⟩ := exists_digit_of_mem_toDigits (by decide) h
      revert d
      decide
    simpa [escapeCode] using hdigits

theorem first_ne_quote (h : Escaped c cs) : ∃ x ds, cs = x :: ds ∧ x ≠ '"' := by
  cases h with
  | plain h => exact ⟨c, [], rfl, (ne_of_shortEscape?_none h).1⟩
  | short | code => exact ⟨'\\', _, rfl, by decide⟩

theorem code_inj (h : escapeCode c ++ r = escapeCode d ++ r') : c = d ∧ r = r' := by
  have hend (n : Nat) : '\x7d' ∉ Nat.toDigits 16 n := fun h => by
    obtain ⟨d, hd, hbrace⟩ := exists_digit_of_mem_toDigits (by decide) h
    revert d
    decide
  simp only [escapeCode, List.cons_append, List.cons.injEq, true_and, List.append_assoc,
    List.nil_append] at h
  obtain ⟨hdigits, hrest⟩ := append_cons_inj_of_not_mem (hend c.toNat) (hend d.toNat) h
  exact ⟨Char.toNat_inj.1 (toDigits_injective (by decide) (Nat.le_refl 16) hdigits), hrest⟩

/-- None is the start of another one. -/
theorem append_inj (hc : Escaped c cs) (hd : Escaped d ds) (h : cs ++ r = ds ++ r') :
    c = d ∧ r = r' := by
  cases hc with
  | plain hc =>
    cases hd with
    | plain => exact List.cons.inj h
    | short | code => exact absurd (List.cons.inj h).1 (ne_of_shortEscape?_none hc).2.1
  | short hc =>
    cases hd with
    | plain hd => exact absurd (List.cons.inj h).1.symm (ne_of_shortEscape?_none hd).2.1
    | short hd =>
      obtain ⟨rfl, hrest⟩ := List.cons.inj (List.cons.inj h).2
      exact ⟨(shortMeaning_of_shortEscape? hc).symm.trans (shortMeaning_of_shortEscape? hd), hrest⟩
    | code =>
      exact absurd (List.cons.inj (List.cons.inj h).2).1 (shortEscape?_ne hc).1
  | code =>
    cases hd with
    | plain hd => exact absurd (List.cons.inj h).1.symm (ne_of_shortEscape?_none hd).2.1
    | short hd =>
      exact absurd (List.cons.inj (List.cons.inj h).2).1.symm (shortEscape?_ne hd).1
    | code => exact code_inj h

end Escaped

-- ---------------------------------------------------------------------------
-- Strings
-- ---------------------------------------------------------------------------

/-- What stands between the quotes of a string. -/
theorem escape_no_break (cs : List Char) : '\n' ∉ escape cs := by
  rw [escape, List.mem_flatMap]
  rintro ⟨c, -, hc⟩
  exact (escapeChar_escaped c).no_break hc

/-- The string can be told from its escaped text, and so can what follows the closing quote. -/
theorem escape_quote_inj (h : escape cs ++ '"' :: r = escape ds ++ '"' :: r') :
    cs = ds ∧ r = r' := by
  induction cs generalizing ds with
  | nil =>
    cases ds with
    | nil => exact ⟨rfl, (List.cons.inj h).2⟩
    | cons d ds =>
      obtain ⟨x, w, hw, hx⟩ := (escapeChar_escaped d).first_ne_quote
      rw [escape, escape, List.flatMap_cons, hw] at h
      exact absurd (List.cons.inj h).1.symm hx
  | cons c cs ih =>
    cases ds with
    | nil =>
      obtain ⟨x, w, hw, hx⟩ := (escapeChar_escaped c).first_ne_quote
      rw [escape, escape, List.flatMap_cons, hw] at h
      exact absurd (List.cons.inj h).1 hx
    | cons d ds =>
      rw [escape, escape, List.flatMap_cons, List.flatMap_cons, List.append_assoc,
        List.append_assoc] at h
      obtain ⟨rfl, hrest⟩ := (escapeChar_escaped c).append_inj (escapeChar_escaped d) h
      obtain ⟨rfl, rfl⟩ := ih hrest
      exact ⟨rfl, rfl⟩

end Lox
