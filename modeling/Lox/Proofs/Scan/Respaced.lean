-- SUMMARY: Tokens are read again as they are, however far apart they are written.
import Lox.Proofs.Scan.Placement
import Lox.Proofs.Unlined.Layout

/-!
## Spacing

The lexemes of a text without errors may be written with any blanks, line breaks and comments
between them, and the tokens stay the same (`respacing_keeps_tokens`). Each lexeme is read again by
itself, set off from what follows, also where it was only a part of a word or stood next to another
mark (`stable_of_mem`). What is put between two lexemes is read as nothing.
-/

namespace Lox

open Fragment

/-- The characters that may stand between tokens anywhere: blanks and line breaks. -/
def gapChars : List Char :=
  [' ', '\t', '\x0c', '\n']

/-- What may stand between tokens: blanks, line breaks, and comments with the break that ends
them. -/
inductive Filler : List Char → Prop where
  | nil : Filler []
  | blank {c cs} (hc : c ∈ gapChars) (h : Filler cs) : Filler (c :: cs)
  | comment {w cs} (hw : '\n' ∉ w) (h : Filler cs) : Filler ('/' :: '/' :: w ++ '\n' :: cs)

/-- A comment may not come first, or a slash in front of it would join it. -/
inductive Spacing : List Char → Prop where
  | mk {c cs} (hc : c ∈ gapChars) (h : Filler cs) : Spacing (c :: cs)

/-- The text is the lexemes from left to right, with spacing between them. -/
inductive Spaced : List (List Char) → List Char → Prop where
  | nil : Spaced [] []
  | single (w) : Spaced [w] w
  | cons {w w' gap ws cs} (hgap : Spacing gap) (h : Spaced (w' :: ws) cs) :
      Spaced (w :: w' :: ws) (w ++ (gap ++ cs))

/-- Set off from the rest of any line, the token is read again. -/
structure Token.Stable (t : Token) : Prop where
  unbroken : '\n' ∉ t.chars
  reads : ∀ rest, SetOff rest → scanLine 0 (t.chars ++ rest) = .ok t :: scanLine 0 rest

variable {t : Token} {u w word part cs rest : List Char} {c : Char} {ps : List Scanned}

-- ---------------------------------------------------------------------------
-- Words
-- ---------------------------------------------------------------------------

theorem mem_of_mem_dotParts (h : part ∈ dotParts word) : ∀ c ∈ part, c ∈ word ∧ c ≠ '.' := by
  induction word generalizing part with
  | nil =>
    obtain rfl := List.mem_singleton.1 h
    exact nofun
  | cons d word ih =>
    obtain ⟨first, parts, hparts, -⟩ := dotParts_join word
    have hbehind (part) (hpart : part ∈ first :: parts) (c) (hc : c ∈ part) :
        c ∈ d :: word ∧ c ≠ '.' := by
      obtain ⟨hmem, hdot⟩ := ih (hparts ▸ hpart) c hc
      exact ⟨List.mem_cons_of_mem d hmem, hdot⟩
    unfold dotParts at h
    rw [hparts] at h
    split at h
    · rcases List.mem_cons.1 h with rfl | h
      · exact nofun
      · exact hbehind part h
    · next hd =>
      rcases List.mem_cons.1 h with rfl | h
      · exact List.forall_mem_cons.2 ⟨⟨List.mem_cons_self, hd⟩, hbehind first List.mem_cons_self⟩
      · exact hbehind part (List.mem_cons_of_mem first h)

theorem dotParts_of_no_dot (h : ∀ c ∈ word, c ≠ '.') : dotParts word = [word] := by
  induction word with
  | nil => rfl
  | cons c word ih =>
    obtain ⟨hc, hword⟩ := List.forall_mem_cons.1 h
    rw [dotParts, if_neg hc, ih hword]

/-- A word without dots is read as one part. -/
theorem scanWord_of_no_dot (hword : ∀ c ∈ word, c ≠ '.') (hne : word ≠ []) (line : Nat) :
    scanWord word line = [scanPart word line] := by
  have hempty : ¬ word.isEmpty = true := fun h => hne (List.isEmpty_iff.1 h)
  unfold scanWord
  cases hwhole : scanWhole? word line with
  | some t => rw [scanPart, hwhole]
  | none =>
    rw [dotParts_of_no_dot hword]
    simp [scanParts, scanPart?, hempty]

/-- Each token of a word is read by itself as it was in the word. -/
theorem scanWord_of_mem (hne : word ≠ []) (h : .ok t ∈ scanWord word 0) :
    t.chars ≠ [] ∧ (∀ c ∈ t.chars, c ∈ word) ∧ scanWord t.chars 0 = [.ok t] := by
  have hpart (part) (hmem : part ∈ dotParts word) (ht : .ok t ∈ scanPart? part 0) :
      t.chars ≠ [] ∧ (∀ c ∈ t.chars, c ∈ word) ∧ scanWord t.chars 0 = [.ok t] := by
    have hcharacters := mem_of_mem_dotParts hmem
    unfold scanPart? at ht
    split at ht
    · cases ht
    · next hempty =>
      have hscan : scanPart part 0 = .ok t := (List.mem_singleton.1 ht).symm
      have hchars : t.chars = part := by
        have hon := (scanPart_on_line part 0).2
        rwa [hscan] at hon
      have hne : part ≠ [] := fun h => hempty (List.isEmpty_iff.2 h)
      rw [hchars, scanWord_of_no_dot (fun c hc => (hcharacters c hc).2) hne, hscan]
      exact ⟨hne, fun c hc => (hcharacters c hc).1, rfl⟩
  have hword := h
  unfold scanWord at h
  split at h
  · next t' hwhole =>
    cases List.mem_singleton.1 h
    obtain ⟨-, hchars⟩ := scanWhole?_on_line hwhole
    rw [hchars]
    exact ⟨hne, fun c hc => hc, by simp only [scanWord, hwhole]⟩
  · obtain ⟨first, parts, hparts, hjoin⟩ := dotParts_join word
    rw [hparts] at h
    rcases List.mem_append.1 h with h | h
    · exact hpart first (hparts ▸ List.mem_cons_self) h
    · obtain ⟨part, hmem, h⟩ := List.mem_flatMap.1 h
      rcases List.mem_cons.1 h with hdot | h
      · cases hdot
        have hdot : '.' ∈ word := by
          rw [← hjoin]
          exact List.mem_append_right _ (List.mem_flatMap.2 ⟨part, hmem, List.mem_cons_self⟩)
        have hchars : (dotToken 0).chars = ['.'] := rfl
        rw [hchars]
        exact ⟨nofun, List.forall_mem_singleton.2 hdot, rfl⟩
      · exact hpart part (hparts ▸ List.mem_cons_of_mem first hmem) h

-- ---------------------------------------------------------------------------
-- Tokens of a line
-- ---------------------------------------------------------------------------

theorem Fragment.Shape.Matches.stable {shape : Shape} (h : shape.Matches w)
    (hcomment : shape ≠ .comment) (hunclosed : shape ≠ .unclosed) (hw : '\n' ∉ w)
    (hchars : t.chars = w) (hscan : Fragment.scan 0 ⟨shape, w⟩ = [.ok t]) : t.Stable := by
  subst hchars
  refine ⟨hw, fun rest hrest => ?_⟩
  obtain ⟨c, cs, hc, hfirst⟩ := h.first_append hcomment hunclosed hrest
  rw [hc, List.cons_append, scanLine_cons, hfirst, hscan]
  rfl

/-- Every token of a line is read again by itself. -/
theorem stable_of_mem {line : List Char} (hline : '\n' ∉ line) (ht : .ok t ∈ scanLine 0 line) :
    t.Stable := by
  obtain ⟨⟨shape, text⟩, hf, ht⟩ := List.mem_flatMap.1 ht
  obtain ⟨_, hlongest⟩ := (fragments_longest hline).longest_of_mem hf
  have htext : '\n' ∉ text := no_break_of_mem_fragments hline hf
  cases hlongest with
  | stray hf =>
    cases hf
    cases List.mem_singleton.1 ht
  | shaped h =>
    cases shape with
    | blank | comment => cases ht
    | unclosed | stray => cases List.mem_singleton.1 ht
    | closed | mark =>
      cases List.mem_singleton.1 ht
      exact h.stable nofun nofun htext String.toList_ofList rfl
    | word =>
      cases h with
      | word hne hword =>
        obtain ⟨hne, hmem, hscan⟩ := scanWord_of_mem hne ht
        have hmatches : Shape.Matches .word t.chars := .word hne fun c hc => hword c (hmem c hc)
        exact hmatches.stable nofun nofun (fun h => htext (hmem _ h)) rfl hscan

-- ---------------------------------------------------------------------------
-- The start of a text
-- ---------------------------------------------------------------------------

/-- The pieces of a text, given by its characters. -/
def piecesFrom (cs : List Char) : List Scanned :=
  piecesOf (linesBetween '\n' '\r' cs)

theorem dropReturn_suffix (line : List Char) : dropReturn '\r' line <:+ line := by
  unfold dropReturn
  split
  · exact List.suffix_refl _
  · split
    · exact List.suffix_cons _ _
    · exact List.suffix_refl _

/-- What is put in front of a text goes to the front of its first line, and stays there. -/
theorem linesFrom_prefix {line : List Char} (hne : line ≠ []) (hline : '\n' ∉ line)
    (cs : List Char) :
    ∃ l tail, l <+: line.reverse ++ cs ∧ '\n' ∉ l ∧
      ∀ u, linesFrom '\n' '\r' (line ++ u.reverse) cs = (u ++ l) :: tail := by
  induction cs generalizing line with
  | nil => exact ⟨line.reverse, [], by simp, by simpa using hline, by simp [linesFrom, hne]⟩
  | cons c cs ih =>
    by_cases hc : c = '\n'
    · subst hc
      obtain ⟨d, line, rfl⟩ := List.exists_cons_of_ne_nil hne
      have hsuffix : dropReturn '\r' (d :: line) <:+ d :: line := dropReturn_suffix (d :: line)
      have hdrop (u) : dropReturn '\r' (d :: line ++ u) = dropReturn '\r' (d :: line) ++ u := by
        rw [List.cons_append, dropReturn, dropReturn]
        split <;> rfl
      refine ⟨(dropReturn '\r' (d :: line)).reverse, linesFrom '\n' '\r' [] cs, ?_, ?_, fun u => ?_⟩
      · exact (List.reverse_prefix.2 hsuffix).trans (List.prefix_append _ _)
      · exact fun h => hline (hsuffix.subset (List.mem_reverse.1 h))
      · rw [linesFrom, if_pos (beq_self_eq_true _), hdrop, List.reverse_append,
          List.reverse_reverse]
    · have hline' : '\n' ∉ c :: line := by
        rw [List.mem_cons, not_or]
        exact ⟨Ne.symm hc, hline⟩
      obtain ⟨l, tail, hprefix, hl, hlines⟩ := ih (List.cons_ne_nil c line) hline'
      refine ⟨l, tail, by simpa using hprefix, hl, fun u => ?_⟩
      rw [linesFrom, if_neg (fun h => hc (beq_iff_eq.1 h))]
      exact hlines u

/-- A text without errors on its own line, in front of another text. -/
theorem piecesFrom_append (u : List Char) (ps : List Scanned) (hu : '\n' ∉ u)
    (hps : ps.filterMap Scanned.error? = [])
    (h : ∀ l, l <+: cs → '\n' ∉ l → scanLine 0 (u ++ l) = ps ++ scanLine 0 l) :
    piecesFrom (u ++ cs) = ps ++ piecesFrom cs := by
  have hline : scanLine 0 u = ps := by simpa [scanLine] using h [] List.nil_prefix List.not_mem_nil
  have halone : piecesOf (linesFrom '\n' '\r' [] u) = ps := by
    rw [← hline]
    by_cases hempty : u = []
    · subst hempty
      rfl
    · have hlines : linesBetween '\n' '\r' u = [u] := linesBetween_of_no_break hempty hu
      exact (congrArg piecesOf hlines).trans (List.append_nil _)
  cases cs with
  | nil => simpa [piecesFrom, linesBetween, linesFrom, piecesOf] using halone
  | cons c cs =>
    by_cases hc : c = '\n'
    · subst hc
      have hbreak := piecesOf_break (halone ▸ hps)
      rw [piecesFrom, linesBetween, linesFrom_append, piecesOf, List.flatMap_append]
      exact congrArg (· ++ _) (hbreak.trans halone)
    · have hline : '\n' ∉ [c] := by simpa using Ne.symm hc
      obtain ⟨l, tail, hprefix, hl, hlines⟩ := linesFrom_prefix (List.cons_ne_nil c []) hline cs
      have hstart (u) (hu : '\n' ∉ u) : piecesFrom (u ++ c :: cs) =
          scanLine 0 (u ++ l) ++ piecesOf tail := by
        rw [piecesFrom, linesBetween, linesFrom_append_of_not_mem hu, List.append_nil, linesFrom,
          if_neg fun h => hc (beq_iff_eq.1 h)]
        exact congrArg piecesOf (hlines u)
      rw [hstart u hu, h l hprefix hl, List.append_assoc]
      exact congrArg (ps ++ ·) (hstart [] List.not_mem_nil).symm

-- ---------------------------------------------------------------------------
-- Spacing
-- ---------------------------------------------------------------------------

theorem isSeparator_of_mem_gapChars (hc : c ∈ gapChars) (hbreak : c ≠ '\n') :
    isSeparator c = true := by
  simp only [gapChars, List.mem_cons, List.not_mem_nil, or_false] at hc
  rcases hc with rfl | rfl | rfl | rfl
  · rfl
  · rfl
  · rfl
  · exact absurd rfl hbreak

theorem piecesFrom_blank (hc : c ∈ gapChars) (cs : List Char) :
    piecesFrom (c :: cs) = piecesFrom cs := by
  by_cases hbreak : c = '\n'
  · subst hbreak
    rfl
  · refine piecesFrom_append [c] [] (by simpa using Ne.symm hbreak) rfl ?_
    intro l _ _
    rw [List.singleton_append, scanLine_cons, first,
      if_pos (isSeparator_of_mem_gapChars hc hbreak)]
    rfl

theorem piecesFrom_comment (hw : '\n' ∉ w) (cs : List Char) :
    piecesFrom ('/' :: '/' :: w ++ '\n' :: cs) = piecesFrom cs := by
  refine piecesFrom_append ('/' :: '/' :: w) [] (by simpa using hw) rfl ?_
  intro l hl hbreak
  cases l with
  | nil => rfl
  | cons d l =>
    obtain rfl := (List.cons_prefix_cons.1 hl).1
    exact absurd List.mem_cons_self hbreak

theorem Filler.piecesFrom_eq {gap : List Char} (h : Filler gap) (cs : List Char) :
    piecesFrom (gap ++ cs) = piecesFrom cs := by
  induction h with
  | nil => rfl
  | blank hc _ ih => exact (piecesFrom_blank hc _).trans ih
  | comment hw _ ih =>
    rw [List.append_assoc]
    exact (piecesFrom_comment hw _).trans ih

theorem Token.Stable.piecesFrom_eq (h : t.Stable) (rest : List Char)
    (hrest : ∀ c ∈ rest.head?, c ∈ gapChars) :
    piecesFrom (t.chars ++ rest) = .ok t :: piecesFrom rest := by
  refine piecesFrom_append t.chars [.ok t] h.unbroken rfl ?_
  intro l hl hbreak
  apply h.reads l
  rintro d hd
  obtain ⟨l, rfl⟩ := List.head?_eq_some_iff.1 hd
  obtain ⟨v, rfl⟩ := hl
  refine isSeparator_of_mem_gapChars (hrest d rfl) ?_
  rintro rfl
  exact hbreak List.mem_cons_self

theorem Spaced.piecesFrom_eq {ts : List Token} (hts : ∀ t ∈ ts, t.Stable)
    (h : Spaced (ts.map Token.chars) cs) : piecesFrom cs = ts.map .ok := by
  generalize hws : ts.map Token.chars = ws at h
  induction h generalizing ts with
  | nil =>
    rw [List.map_eq_nil_iff.1 hws]
    rfl
  | single w =>
    obtain ⟨t, rfl, rfl⟩ := List.map_eq_singleton_iff.1 hws
    have hread := (hts t List.mem_cons_self).piecesFrom_eq [] nofun
    rwa [List.append_nil] at hread
  | cons hgap _ ih =>
    obtain ⟨t, ts, rfl, rfl, htail⟩ := List.map_eq_cons_iff.1 hws
    obtain ⟨ht, hts⟩ := List.forall_mem_cons.1 hts
    cases hgap with
    | mk hc hfiller =>
      rw [ht.piecesFrom_eq _ (by rintro _ ⟨⟩; exact hc), List.map_cons, ← ih hts htail]
      exact congrArg (.ok t :: ·) ((Filler.blank hc hfiller).piecesFrom_eq _)

-- ---------------------------------------------------------------------------
-- Texts
-- ---------------------------------------------------------------------------

theorem map_ok_of_no_errors (h : ps.filterMap Scanned.error? = []) :
    ps = (ps.map Scanned.token).map .ok := by
  rw [List.filterMap_eq_nil_iff] at h
  rw [List.map_map]
  refine (List.map_id ps).symm.trans (List.map_congr_left fun p hp => ?_)
  cases p with
  | ok t => rfl
  | error e => cases h _ hp

/-- The lexemes of a text, without the empty one of the token that ends the list. -/
theorem lexemes_eq (source : String) :
    ((scan source).tokens.filter (·.kind ≠ .endOfFile)).map Token.chars =
      ((pieces source).map Scanned.token).map Token.chars := by
  have hunlined (ts : List Token) : (ts.filter (·.kind ≠ .endOfFile)).map Token.chars =
      ((ts.map Token.unlined).filter (·.kind ≠ .endOfFile)).map Token.chars := by
    rw [List.filter_map, List.map_map]
    rfl
  have hpieces : ∀ t ∈ (pieces source).map Scanned.token, t.kind ≠ .endOfFile :=
    List.forall_mem_map.2 fun p hp => (pieces_proper source p hp).kind_ne
  rw [hunlined, scan_tokens_unlined, List.filter_append,
    List.filter_eq_self.2 fun t ht => decide_eq_true (hpieces t ht)]
  simp [Token.endOfFile]

/-- The tokens of a text without errors have the same kinds, lexemes and literals in any text that
has the same lexemes in the same order, with spacing between them. -/
theorem respacing_keeps_tokens {source text : String} (herrors : (scan source).errors = [])
    (hspaced : Spaced (((scan source).tokens.filter (·.kind ≠ .endOfFile)).map Token.chars)
      text.toList) :
    (scan text).errors = [] ∧
      (scan text).tokens.map Token.word = (scan source).tokens.map Token.word := by
  have hfaults : (pieces source).filterMap Scanned.error? = [] := by
    rw [← scan_errors_unlined, herrors]
    rfl
  have hok := map_ok_of_no_errors hfaults
  have hstable : ∀ t ∈ (pieces source).map Scanned.token, t.Stable := by
    intro t ht
    have ht : .ok t ∈ pieces source := hok ▸ List.mem_map_of_mem ht
    obtain ⟨line, hline, ht⟩ := List.mem_flatMap.1 ht
    exact stable_of_mem (linesFrom_no_break List.not_mem_nil line hline) ht
  have hpieces : pieces text = pieces source := by
    rw [lexemes_eq] at hspaced
    exact (hspaced.piecesFrom_eq hstable).trans hok.symm
  have hunlined :
      (scan text).tokens.map Token.unlined = (scan source).tokens.map Token.unlined := by
    rw [scan_tokens_unlined, scan_tokens_unlined, hpieces]
  constructor
  · rw [← List.map_eq_nil_iff, scan_errors_unlined, hpieces, hfaults]
  · have hword (ts : List Token) : ts.map Token.word = (ts.map Token.unlined).map Token.word := by
      rw [List.map_map]
      rfl
    rw [hword, hunlined, ← hword]

/-- A word with two dots and two marks side by side, and the same taken apart. -/
theorem dotted_word_and_marks_apart :
    let source := "1.2.3!=="
    let text := "1\n.\t2 . 3 //d\n!= //!\n\n="
    (scan source).errors = [] ∧
      Spaced (["1", ".", "2", ".", "3", "!=", "="].map String.toList) text.toList ∧
      (scan text).errors = [] ∧
      (scan text).tokens.map Token.word = (scan source).tokens.map Token.word := by
  have herrors : (scan "1.2.3!==").errors = [] := rfl
  have hlexemes : ((scan "1.2.3!==").tokens.filter (·.kind ≠ .endOfFile)).map Token.chars =
      ["1", ".", "2", ".", "3", "!=", "="].map String.toList := rfl
  have hblank {c} (hc : c ∈ gapChars) : Spacing [c] := .mk hc .nil
  have hcomment : Spacing " //d\n".toList :=
    .mk (by decide) (.comment (w := ['d']) (by decide) .nil)
  have hline : Spacing " //!\n\n".toList :=
    .mk (by decide) (.comment (w := ['!']) (by decide) (.blank (by decide) .nil))
  have htext : "1\n.\t2 . 3 //d\n!= //!\n\n=".toList =
      "1".toList ++ (['\n'] ++ (".".toList ++ (['\t'] ++ ("2".toList ++ ([' '] ++ (".".toList ++
        ([' '] ++ ("3".toList ++ (" //d\n".toList ++ ("!=".toList ++ (" //!\n\n".toList ++
          "=".toList))))))))))) := rfl
  have hspaced : Spaced (["1", ".", "2", ".", "3", "!=", "="].map String.toList)
      "1\n.\t2 . 3 //d\n!= //!\n\n=".toList := by
    rw [htext]
    exact .cons (hblank (by decide)) (.cons (hblank (by decide)) (.cons (hblank (by decide))
      (.cons (hblank (by decide)) (.cons hcomment (.cons hline (.single _))))))
  exact ⟨herrors, hspaced, respacing_keeps_tokens herrors (hlexemes ▸ hspaced)⟩

end Lox
