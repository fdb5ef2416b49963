-- SUMMARY: The scanner reads back the string literals that trees are written with.
import Mathlib.Data.List.Basic
import Lox.Proofs.Scan.Placement
import Lox.Proofs.Text.Quoted
import Lox.Tree.Printer

/-!
## Quoted strings in a line

A quoted string is one fragment of its line, whatever follows it: an escape has no quote but behind
a backslash, so the first quote that closes a string is the one that was written last
(`scanLine_quoted`). The reader knows all escapes but those of a null and of a code point, so what
it reads is the string exactly if the string has no such characters (`unescape_escape_iff`).
-/

namespace Lox

open Fragment

/-- The character is written neither as a null nor by its code point. -/
def Readable (c : Char) : Prop :=
  escapeChar c ≠ ['\\', '0'] ∧ escapeChar c ≠ escapeCode c

instance : DecidablePred Readable :=
  fun c => inferInstanceAs (Decidable (escapeChar c ≠ ['\\', '0'] ∧ escapeChar c ≠ escapeCode c))

variable {c : Char} {cs : List Char}

-- ---------------------------------------------------------------------------
-- Reading escapes
-- ---------------------------------------------------------------------------

theorem unescapeChar?_of_shortEscape? {x : Char} (h : shortEscape? c = some x) (hx : x ≠ '0') :
    unescapeChar? x = some c := by
  unfold shortEscape? at h
  split at h <;> cases h
  case h_6 => exact absurd rfl hx
  all_goals rfl

/-- A character that the reader knows is written as itself or behind a backslash. -/
theorem Readable.written (h : Readable c) :
    (escapeChar c = [c] ∧ c ≠ '\\') ∨ ∃ x, escapeChar c = ['\\', x] ∧ unescapeChar? x = some c := by
  obtain ⟨hnull, hcode⟩ := h
  have hescaped := escapeChar_escaped c
  generalize escapeChar c = w at hescaped hnull hcode ⊢
  cases hescaped with
  | plain hplain => exact .inl ⟨rfl, (ne_of_shortEscape?_none hplain).2.1⟩
  | short hshort =>
    exact .inr ⟨_, rfl, unescapeChar?_of_shortEscape? hshort fun hx => hnull (hx ▸ rfl)⟩
  | code => exact absurd rfl hcode

theorem readable_backslash : Readable '\\' := by
  decide

/-- Any other character is written as a backslash with something behind it that is no escape. -/
theorem written_of_not_readable (h : ¬ Readable c) :
    ∃ x w, escapeChar c = '\\' :: x :: w ∧ unescapeChar? x = none := by
  by_cases hnull : escapeChar c = ['\\', '0']
  · exact ⟨'0', [], hnull, rfl⟩
  · have hcode : escapeChar c = escapeCode c := by
      by_contra hcode
      exact h ⟨hnull, hcode⟩
    exact ⟨'u', _, hcode, rfl⟩

theorem Readable.unescape_append (h : Readable c) (cs : List Char) :
    unescape (escapeChar c ++ cs) = c :: unescape cs := by
  rcases h.written with ⟨hc, hbackslash⟩ | ⟨x, hc, hx⟩
  · rw [hc, List.singleton_append, unescape.eq_4]
    · exact fun h => absurd h hbackslash
    · exact fun _ _ h => absurd h hbackslash
  · rw [hc, List.cons_append, List.singleton_append, unescape.eq_3, hx]

/-- The reader gives back the characters that it knows, and never a string with any other one. -/
theorem unescape_escape_iff : unescape (escape cs) = cs ↔ ∀ c ∈ cs, Readable c := by
  induction cs with
  | nil => exact iff_of_true rfl nofun
  | cons c cs ih =>
    rw [escape, List.flatMap_cons, ← escape, List.forall_mem_cons, ← ih]
    by_cases hc : Readable c
    · rw [hc.unescape_append, List.cons.injEq]
      exact ⟨fun h => ⟨hc, h.2⟩, fun h => ⟨rfl, h.2⟩⟩
    · obtain ⟨x, w, hw, hx⟩ := written_of_not_readable hc
      refine iff_of_false (fun h => ?_) fun h => hc h.1
      rw [hw, List.cons_append, List.cons_append, unescape.eq_3, hx] at h
      exact hc ((List.cons.inj h).1 ▸ readable_backslash)

-- ---------------------------------------------------------------------------
-- The closing quote
-- ---------------------------------------------------------------------------

theorem Fragment.Inside.append {body cs : List Char} (h : Inside body) (h' : Inside cs) :
    Inside (body ++ cs) := by
  induction h with
  | nil => exact h'
  | plain hquote hbackslash _ ih => exact .plain hquote hbackslash ih
  | escaped hc _ ih => exact .escaped hc ih

theorem Fragment.Inside.of_plain (h : ∀ c ∈ cs, c ≠ '"' ∧ c ≠ '\\') : Inside cs := by
  induction cs with
  | nil => exact .nil
  | cons c cs ih =>
    obtain ⟨⟨hquote, hbackslash⟩, hcs⟩ := List.forall_mem_cons.1 h
    exact .plain hquote hbackslash (ih hcs)

theorem Escaped.inside {w : List Char} (h : Escaped c w) : Inside w := by
  cases h with
  | plain h =>
    obtain ⟨hquote, hbackslash, -⟩ := ne_of_shortEscape?_none h
    exact .plain hquote hbackslash .nil
  | short h => exact .escaped (shortEscape?_ne h).2 .nil
  | code =>
    have hdigit : ∀ d ∈ Nat.toDigits 16 c.toNat, d ≠ '"' ∧ d ≠ '\\' := by
      intro d hd
      obtain ⟨n, hn, rfl⟩ := exists_digit_of_mem_toDigits (by decide) hd
      clear hd
      revert n
      decide
    refine .escaped (by decide) (.plain (by decide) (by decide) ?_)
    exact (Inside.of_plain hdigit).append (.plain (by decide) (by decide) .nil)

theorem inside_escape (cs : List Char) : Inside (escape cs) := by
  induction cs with
  | nil => exact .nil
  | cons c cs ih => exact (escapeChar_escaped c).inside.append ih

/-- What a line starts with that starts with a quoted string. -/
theorem first_quoted (cs rest : List Char) :
    first '"' (escape cs ++ '"' :: rest) =
      (⟨.closed (escape cs), '"' :: escape cs ++ ['"']⟩, rest) := by
  rw [first_quote, (inside_escape cs).closeQuote_append]
  simp [closeQuote]

-- ---------------------------------------------------------------------------
-- Lines and texts
-- ---------------------------------------------------------------------------

/-- The token that a quoted string is read as. -/
def quotedToken (s : String) (line : Nat) : Token where
  kind := .string
  lexeme := quoted s
  line := line
  literal := some (.string (String.ofList (unescape (escape s.toList))))

theorem quotedToken_of_readable {s : String} (h : ∀ c ∈ s.toList, Readable c) (line : Nat) :
    quotedToken s line =
      ⟨.string, (Literal.string s).written, line, some (.string s)⟩ := by
  rw [quotedToken, unescape_escape_iff.2 h, String.ofList_toList]
  rfl

/-- A quoted string is one token, and the rest of the line is read as it would be by itself. -/
theorem scanLine_quoted (s : String) (rest : List Char) (line : Nat) :
    scanLine line ((quoted s).toList ++ rest) = .ok (quotedToken s line) :: scanLine line rest := by
  have hline : (quoted s).toList ++ rest = '"' :: (escape s.toList ++ '"' :: rest) := by
    simp [quoted]
  rw [hline, scanLine_cons, first_quoted]
  rfl

theorem no_break_quoted (s : String) : '\n' ∉ (quoted s).toList := by
  simpa [quoted] using escape_no_break s.toList

/-- A string that is written as a tree writes it, without a null and without code points, is read as
this string, whatever follows on the line; and what follows is read as it would be by itself. -/
theorem written_string_reads_back {s rest : String} (hs : ∀ c ∈ s.toList, Readable c)
    (hrest : '\n' ∉ rest.toList) :
    let text := (Literal.string s).written
    let token (line : Nat) : Token :=
      { kind := .string, lexeme := text, line, literal := some (.string s) }
    (∀ line, scanLine line (text ++ rest).toList = .ok (token line) :: scanLine line rest.toList) ∧
      ∃ ts last, (scan rest).tokens = ts ++ [.endOfFile last] ∧
        (scan (text ++ rest)).tokens = token 1 :: ts ++ [.endOfFile 2] ∧
        (scan (text ++ rest)).errors = (scan rest).errors := by
  intro text token
  have hline (line : Nat) :
      scanLine line (text ++ rest).toList = .ok (token line) :: scanLine line rest.toList := by
    have htoken : quotedToken s line = token line := quotedToken_of_readable hs line
    rw [String.toList_append, ← htoken]
    exact scanLine_quoted s rest.toList line
  have hbreak : '\n' ∉ (text ++ rest).toList := by
    rw [String.toList_append, List.mem_append, not_or]
    exact ⟨no_break_quoted s, hrest⟩
  have hne : text ++ rest ≠ "" := by
    intro h
    have hread := hline 0
    rw [h] at hread
    cases hread
  obtain ⟨htokens, herrors⟩ := scan_of_no_break hbreak
  obtain ⟨hresttokens, hresterrors⟩ := scan_of_no_break hrest
  rw [hline, if_neg hne] at htokens
  rw [hline] at herrors
  exact ⟨hline, _, _, hresttokens, htokens, herrors.trans hresterrors.symm⟩

/-- A string with all escapes that the reader knows, in front of text that has an escape, a word
with two dots and a string that does not end. -/
theorem escapes_read_back :
    let s := "\"\\\n\r\té\\"
    let rest := "\\n\"1.2.3\\\""
    (∀ c ∈ s.toList, Readable c) ∧ '\n' ∉ rest.toList ∧
      (Literal.string s).written = "\"\\\"\\\\\\n\\r\\té\\\\\"" ∧
      ∃ ts last, (scan rest).tokens = ts ++ [.endOfFile last] ∧
        (scan ((Literal.string s).written ++ rest)).tokens =
          ⟨.string, (Literal.string s).written, 1, some (.string s)⟩ :: ts ++ [.endOfFile 2] ∧
        (scan ((Literal.string s).written ++ rest)).errors = (scan rest).errors := by
  intro s rest
  have hs : ∀ c ∈ s.toList, Readable c := by
    rw [← List.forall_iff_forall_mem]
    decide +kernel
  have hrest : '\n' ∉ rest.toList := by simp [rest]
  have hwritten : (Literal.string s).written = "\"\\\"\\\\\\n\\r\\té\\\\\"" := by decide +kernel
  exact ⟨hs, hrest, hwritten, (written_string_reads_back hs hrest).2⟩

end Lox
