-- SUMMARY: The lines of a token listing, and the strings that break them.
import Lox.Proofs.Number.Text
import Lox.Proofs.Scan.Quoted
import Lox.Token.Listing

/-!
## Lines of a listing

The text of a token is listed in quotes, but the string that it stands for is listed as it is. So a
line of a listing is broken by a string, and by nothing else: a listing has a line break for each
token and one more for each break in a string literal (`count_listing`). Of a source text, a string
holds a break exactly if the escape of one is written in it, and one line for each token is what the
listing has exactly if this escape is nowhere in the strings of the text
(`listing_line_per_token_iff`).
-/

namespace Lox

open Fragment

-- ---------------------------------------------------------------------------
-- Texts without a break
-- ---------------------------------------------------------------------------

variable {c : Char} {cs body : List Char} {line : Nat} {s : String} {t : Token} {p : Scanned}

theorem Number.no_break_text (x : Float) : '\n' ∉ (Number.text x).toList := by
  cases hparts : parts x with
  | nan => simp [text, hparts]
  | infinite negative => cases negative <;> simp [text, hparts]
  | finite negative m q =>
    intro h
    obtain ⟨c, cs, hcs, hc, hrest⟩ := text_chars ⟨negative, m, q, hparts⟩
    rw [hcs] at h
    rcases List.mem_cons.1 h with rfl | h
    · revert hc
      decide
    · have hbreak := hrest '\n' h
      revert hbreak
      decide

theorem no_break_rightAligned (width : Nat) (h : '\n' ∉ s.toList) :
    '\n' ∉ (rightAligned width s).toList := by
  simp [rightAligned, h]

theorem no_break_toString (n : Nat) : '\n' ∉ (toString n).toList := by
  intro h
  have hmem : '\n' ∈ Nat.toDigits 10 n := by simpa using h
  have hdigit := Number.isDigit_of_mem_toDigits hmem
  revert hdigit
  decide

theorem Kind.no_break_name (kind : Kind) : '\n' ∉ kind.name.toList := by
  cases kind <;> decide

-- ---------------------------------------------------------------------------
-- Lines of tokens
-- ---------------------------------------------------------------------------

/-- The line breaks in the string that a token stands for. -/
def Token.breaks (t : Token) : Nat :=
  match t.literal with
  | some (.string s) => s.toList.count '\n'
  | _ => 0

/-- Nothing else that is listed of a token has a break. -/
theorem Token.count_listed (t : Token) : t.listed.toList.count '\n' = t.breaks := by
  have hline := List.count_eq_zero_of_not_mem
    (no_break_rightAligned 4 (no_break_toString t.line))
  have hkind := List.count_eq_zero_of_not_mem t.kind.no_break_name
  have hlexeme := List.count_eq_zero_of_not_mem (no_break_quoted t.lexeme)
  obtain ⟨kind, lexeme, line, literal⟩ := t
  simp only [listed, breaks, String.toList_append, List.count_append, hline, hkind, hlexeme]
  match literal with
  | none => rfl
  | some (.string s) => simp [Literal.text]
  | some (.number x) =>
    have := List.count_eq_zero_of_not_mem (Number.no_break_text x)
    simp [Literal.text, this]
  | some (.boolean b) => cases b <;> rfl
  | some .nil => rfl

theorem toList_listing (ts : List Token) :
    (listing ts).toList = ts.flatMap fun t => t.listed.toList ++ ['\n'] := by
  simp [listing, String.toList_join, List.flatMap_map]

/-- A listing has a line break for each token, and those of the strings. -/
theorem count_listing (ts : List Token) :
    (listing ts).toList.count '\n' = ts.length + (ts.map Token.breaks).sum := by
  rw [toList_listing]
  induction ts with
  | nil => rfl
  | cons t ts ih =>
    rw [List.flatMap_cons, List.count_append, List.count_append, ih, t.count_listed,
      List.count_singleton_self, List.length_cons, List.map_cons, List.sum_cons]
    omega

theorem count_listing_eq_length_iff (ts : List Token) :
    (listing ts).toList.count '\n' = ts.length ↔ ∀ t ∈ ts, t.breaks = 0 := by
  rw [count_listing, Nat.add_eq_left, List.sum_eq_zero_iff, List.forall_mem_map]

/-- The lines of a listing are those of its tokens, and nothing behind the last break. -/
theorem lines_listing (ts : List Token) :
    (listing ts).toList.splitOn '\n' =
      ts.flatMap (fun t => t.listed.toList.splitOn '\n') ++ [[]] := by
  rw [toList_listing]
  induction ts with
  | nil => rfl
  | cons t ts ih =>
    rw [List.flatMap_cons, List.append_assoc, List.singleton_append, List.splitOn_append_cons_self,
      ih, List.flatMap_cons, List.append_assoc]

theorem length_splitOn (c : Char) (cs : List Char) : (cs.splitOn c).length = cs.count c + 1 := by
  induction cs with
  | nil => rfl
  | cons d cs ih =>
    rw [List.splitOn_cons_eq_if_modifyHead, List.count_cons]
    split <;> simp [ih]

/-- Each token has a line of its own exactly if there are as many lines as tokens. -/
theorem lines_listing_eq_iff (ts : List Token) :
    (listing ts).toList.splitOn '\n' = ts.map (fun t => t.listed.toList) ++ [[]] ↔
      ∀ t ∈ ts, t.breaks = 0 := by
  constructor
  · intro h
    have hlength := congrArg List.length h
    rw [length_splitOn, List.length_append, List.length_map, List.length_singleton] at hlength
    exact (count_listing_eq_length_iff ts).1 (Nat.succ.inj hlength)
  · intro h
    have hline : ∀ t ∈ ts, t.listed.toList.splitOn '\n' = [t.listed.toList] := fun t ht =>
      List.splitOn_eq_singleton (List.count_eq_zero.1 (t.count_listed.trans (h t ht)))
    rw [lines_listing, List.flatMap_congr hline, List.map_eq_flatMap]

-- ---------------------------------------------------------------------------
-- Escaped breaks
-- ---------------------------------------------------------------------------

/-- The inside of a string has the escape of a line break. -/
def BreakEscaped (body : List Char) : Prop :=
  ∃ u v, Inside u ∧ body = u ++ '\\' :: 'n' :: v

/-- Behind a character that starts no escape. -/
theorem breakEscaped_cons (hquote : c ≠ '"') (hbackslash : c ≠ '\\') :
    BreakEscaped (c :: cs) ↔ BreakEscaped cs := by
  constructor
  · rintro ⟨u, v, hu, h⟩
    cases hu with
    | nil => exact absurd (List.cons.inj h).1 hbackslash
    | plain _ _ hu => exact ⟨_, v, hu, (List.cons.inj h).2⟩
    | escaped => exact absurd (List.cons.inj h).1 hbackslash
  · rintro ⟨u, v, hu, rfl⟩
    exact ⟨c :: u, v, .plain hquote hbackslash hu, rfl⟩

/-- Behind an escape. -/
theorem breakEscaped_escape (hc : c ≠ '\n') :
    BreakEscaped ('\\' :: c :: cs) ↔ c = 'n' ∨ BreakEscaped cs := by
  constructor
  · rintro ⟨u, v, hu, h⟩
    cases hu with
    | nil => exact .inl (List.cons.inj (List.cons.inj h).2).1
    | plain _ hbackslash => exact absurd (List.cons.inj h).1.symm hbackslash
    | escaped _ hu => exact .inr ⟨_, v, hu, (List.cons.inj (List.cons.inj h).2).2⟩
  · rintro (rfl | ⟨u, v, hu, rfl⟩)
    · exact ⟨[], cs, .nil, rfl⟩
    · exact ⟨'\\' :: c :: u, v, .escaped hc hu, rfl⟩

theorem unescapeChar?_eq_break_iff : unescapeChar? c = some '\n' ↔ c = 'n' := by
  constructor
  · intro h
    unfold unescapeChar? at h
    split at h <;> first | rfl | cases h
  · rintro rfl
    rfl

/-- A string that is written on one line holds a break exactly if the escape of one is written. -/
theorem break_mem_unescape_iff (h : Inside body) (hbreak : '\n' ∉ body) :
    '\n' ∈ unescape body ↔ BreakEscaped body := by
  induction h with
  | nil =>
    refine iff_of_false List.not_mem_nil ?_
    rintro ⟨u, v, -, h⟩
    exact List.append_ne_nil_of_right_ne_nil _ (List.cons_ne_nil _ _) h.symm
  | @plain c cs hquote hbackslash _ ih =>
    rw [List.mem_cons, not_or] at hbreak
    rw [breakEscaped_cons hquote hbackslash, ← ih hbreak.2, unescape.eq_4, List.mem_cons]
    · exact or_iff_right hbreak.1
    · exact fun h => absurd h hbackslash
    · exact fun _ _ h => absurd h hbackslash
  | @escaped c cs hc _ ih =>
    have hrest : '\n' ∉ cs := fun h => hbreak (by simp [h])
    rw [breakEscaped_escape hc, ← ih hrest, unescape.eq_3, ← unescapeChar?_eq_break_iff]
    cases unescapeChar? c with
    | some d => simp [eq_comm]
    | none => simp [hc.symm]

-- ---------------------------------------------------------------------------
-- Tokens of a text
-- ---------------------------------------------------------------------------

/-- The token is a string in which the escape of a line break is written. -/
def Token.EscapesBreak (t : Token) : Prop :=
  t.kind = .string ∧ ∃ body, t.chars = '"' :: body ++ ['"'] ∧ BreakEscaped body

/-- A token is a string between quotes, or nothing about it is a string. -/
inductive Token.Spelled (t : Token) : Prop where
  | string {body : List Char} (h : Inside body) (hbreak : '\n' ∉ body) (hkind : t.kind = .string)
      (hchars : t.chars = '"' :: body ++ ['"'])
      (hliteral : t.literal = some (.string (String.ofList (unescape body))))
  | other (hkind : t.kind ≠ .string) (hliteral : ∀ s, t.literal ≠ some (.string s))

theorem Token.Spelled.breaks_eq_zero_iff (h : t.Spelled) : t.breaks = 0 ↔ ¬ t.EscapesBreak := by
  cases h with
  | @string body h hbreak hkind hchars hliteral =>
    have hescapes : t.EscapesBreak ↔ BreakEscaped body := by
      constructor
      · rintro ⟨-, body', hchars', hbody'⟩
        have hbody : body = body' :=
          List.append_cancel_right (List.cons.inj (hchars.symm.trans hchars')).2
        exact hbody ▸ hbody'
      · exact fun hbody => ⟨hkind, body, hchars, hbody⟩
    rw [hescapes, ← break_mem_unescape_iff h hbreak, breaks, hliteral]
    simp [List.count_eq_zero]
  | other hkind hliteral =>
    refine iff_of_true ?_ fun h => hkind h.1
    unfold breaks
    split
    · next s hs => exact absurd hs (hliteral s)
    · rfl

/-- A token of a fixed text is no string, and stands for none. -/
theorem Token.Spelled.of_fixed (h : t.kind.Fixed) (hliteral : t.literal = none) : t.Spelled := by
  refine .other (fun hkind => h ?_) fun s hs => ?_
  · rw [hkind]
    decide
  · rw [hliteral] at hs
    cases hs

theorem scanWhole?_spelled (h : scanWhole? cs line = some t) : t.Spelled := by
  unfold scanWhole? at h
  dsimp only at h
  split at h
  · next hkind =>
    cases h
    exact .of_fixed (Kind.keyword?_fixed hkind) rfl
  · obtain ⟨x, -, rfl⟩ := Option.map_eq_some_iff.1 h
    exact .other nofun nofun

theorem scanPart?_spelled : ∀ p ∈ scanPart? cs line, p.token.Spelled := by
  intro p hp
  unfold scanPart? at hp
  split at hp
  · cases hp
  · obtain rfl := List.mem_singleton.1 hp
    unfold scanPart
    split
    · next h => exact scanWhole?_spelled h
    · split <;> exact .other nofun nofun

theorem scanWord_spelled : ∀ p ∈ scanWord cs line, p.token.Spelled := by
  intro p hp
  unfold scanWord at hp
  split at hp
  · next h =>
    obtain rfl := List.mem_singleton.1 hp
    exact scanWhole?_spelled h
  · obtain ⟨part, parts, hparts, -⟩ := dotParts_join cs
    rw [hparts] at hp
    rcases List.mem_append.1 hp with hp | hp
    · exact scanPart?_spelled p hp
    · obtain ⟨part, -, hp⟩ := List.mem_flatMap.1 hp
      rcases List.mem_cons.1 hp with rfl | hp
      · exact .other nofun nofun
      · exact scanPart?_spelled p hp

theorem scanLine_spelled (hcs : '\n' ∉ cs) : ∀ p ∈ scanLine line cs, p.token.Spelled := by
  intro p hp
  obtain ⟨⟨shape, text⟩, hf, hp⟩ := List.mem_flatMap.1 hp
  obtain ⟨_, hlongest⟩ := (fragments_longest hcs).longest_of_mem hf
  have htext : '\n' ∉ text := no_break_of_mem_fragments hcs hf
  cases hlongest with
  | stray hf =>
    cases hf
    obtain rfl := List.mem_singleton.1 hp
    exact .other nofun nofun
  | shaped h =>
    cases h with
    | blank | comment => cases hp
    | unclosed | unclosedBackslash =>
      obtain rfl := List.mem_singleton.1 hp
      exact .other nofun nofun
    | @closed body h =>
      obtain rfl := List.mem_singleton.1 hp
      have hbody : '\n' ∉ body := fun hmem =>
        htext (List.mem_append_left _ (List.mem_cons_of_mem _ hmem))
      exact .string h hbody rfl String.toList_ofList rfl
    | mark hkind =>
      obtain rfl := List.mem_singleton.1 hp
      exact .of_fixed (Kind.ofChar?_fixed hkind) rfl
    | pair hkind =>
      obtain rfl := List.mem_singleton.1 hp
      exact .of_fixed (Kind.ofPair?_fixed hkind) rfl
    | word => exact scanWord_spelled p hp

theorem scanLines_spelled {lines : List (List Char)} (hlines : ∀ cs ∈ lines, '\n' ∉ cs) :
    ∀ p ∈ scanLines line lines, p.token.Spelled := by
  induction lines generalizing line with
  | nil => exact List.forall_mem_nil _
  | cons cs lines ih =>
    obtain ⟨hcs, hlines⟩ := List.forall_mem_cons.1 hlines
    exact List.forall_mem_append.2 ⟨scanLine_spelled hcs, ih hlines⟩

theorem scan_spelled (source : String) : ∀ t ∈ (scan source).tokens, t.Spelled := by
  refine List.forall_mem_append.2 ⟨List.forall_mem_map.2 ?_, List.forall_mem_singleton.2 ?_⟩
  · exact scanLines_spelled (linesFrom_no_break List.not_mem_nil)
  · exact .other nofun nofun

/-- A source text is listed with one line for each token, and the `i`-th line is that of the `i`-th
token, exactly if the escape of a line break is written in none of its strings. In any case the
lines are those of the tokens, one token after the other, and there is a line break for each token
and one for each break in a string. -/
theorem listing_line_per_token_iff (source : String) :
    ((listing (scan source).tokens).toList.count '\n' = (scan source).tokens.length ↔
      ∀ t ∈ (scan source).tokens, ¬ t.EscapesBreak) ∧
    ((listing (scan source).tokens).toList.splitOn '\n' =
        (scan source).tokens.map (fun t => t.listed.toList) ++ [[]] ↔
      ∀ t ∈ (scan source).tokens, ¬ t.EscapesBreak) ∧
    (listing (scan source).tokens).toList.splitOn '\n' =
      (scan source).tokens.flatMap (fun t => t.listed.toList.splitOn '\n') ++ [[]] ∧
    (listing (scan source).tokens).toList.count '\n' =
      (scan source).tokens.length + ((scan source).tokens.map Token.breaks).sum := by
  have hbreaks : (∀ t ∈ (scan source).tokens, t.breaks = 0) ↔
      ∀ t ∈ (scan source).tokens, ¬ t.EscapesBreak :=
    forall₂_congr fun t ht => (scan_spelled source t ht).breaks_eq_zero_iff
  exact ⟨(count_listing_eq_length_iff _).trans hbreaks, (lines_listing_eq_iff _).trans hbreaks,
    lines_listing _, count_listing _⟩

/-- A string with an escaped break shows the line of a token that the text does not have. -/
theorem string_imitates_token :
    let source := "\"\\n   1 Plus \\\"+\\\"\""
    let plus : Token := { kind := .plus, lexeme := "+", line := 1 }
    (scan source).tokens.map Token.kind = [.string, .endOfFile] ∧
      (listing (scan source).tokens).toList.count '\n' = 3 ∧
      ((listing (scan source).tokens).toList.splitOn '\n')[1]? = some plus.listed.toList := by
  decide +kernel

end Lox
