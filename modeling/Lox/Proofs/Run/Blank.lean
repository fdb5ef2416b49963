-- SUMMARY: What the front end makes of the lines that a session takes for blank.
import Mathlib.Data.List.DropRight
import Lox.Proofs.Parse.Correct
import Lox.Proofs.Run.Session
import Lox.Proofs.Scan.Respaced
import Lox.Run.Repl

/-!
## Blank lines

A session does not run a line of white space, and takes all white space of Unicode for it. The
scanner knows four blanks only: any other white space is a word to it, and a word that it cannot
read. So a blank line is never a program, and it is without errors exactly if its characters are
blanks to the scanner too (`skipped_line_is_nothing_iff`).
-/

namespace Lox

open Fragment

variable {c : Char} {cs word : List Char} {line : Nat} {source : String}

-- ---------------------------------------------------------------------------
-- White space at the ends
-- ---------------------------------------------------------------------------

/-- A text without the white space at its ends. -/
def trimmed (s : String) : List Char :=
  (s.toList.dropWhile isWhiteSpace).rdropWhile isWhiteSpace

theorem isBlankLine_iff_white (s : String) :
    isBlankLine s = true ↔ ∀ c ∈ s.toList, isWhiteSpace c = true :=
  List.all_eq_true

theorem isBlankLine_iff_trimmed (s : String) : isBlankLine s = true ↔ trimmed s = [] := by
  rw [isBlankLine_iff_white, trimmed, List.rdropWhile_eq_nil_iff]
  constructor
  · intro h c hc
    exact h c ((List.dropWhile_sublist _).subset hc)
  · intro h
    rw [← List.dropWhile_eq_nil_iff]
    by_contra hne
    have hhead := List.head_dropWhile_not isWhiteSpace hne
    rw [h _ (List.head_mem hne)] at hhead
    cases hhead

-- ---------------------------------------------------------------------------
-- White space in a word
-- ---------------------------------------------------------------------------

theorem not_visible_of_isWhiteSpace (h : isWhiteSpace c = true) : c.toNat ≤ 32 ∨ 133 ≤ c.toNat := by
  simp only [isWhiteSpace, Bool.or_eq_true, Bool.and_eq_true, decide_eq_true_eq, beq_iff_eq] at h
  omega

theorem visible_of_isIdentifierChar (h : isIdentifierChar c = true) :
    48 ≤ c.toNat ∧ c.toNat ≤ 122 := by
  have hupper (h : c.isUpper = true) : 65 ≤ c.toNat ∧ c.toNat ≤ 90 := of_decide_eq_true h
  have hlower (h : c.isLower = true) : 97 ≤ c.toNat ∧ c.toNat ≤ 122 :=
    (Bool.and_eq_true_iff.1 h).imp of_decide_eq_true of_decide_eq_true
  have hdigit (h : c.isDigit = true) : 48 ≤ c.toNat ∧ c.toNat ≤ 57 :=
    (Bool.and_eq_true_iff.1 h).imp of_decide_eq_true of_decide_eq_true
  rcases Bool.or_eq_true_iff.1 h with h | h
  · rcases Bool.or_eq_true_iff.1 h with h | h
    · rcases Bool.or_eq_true_iff.1 h with h | h
      · have := hupper h
        omega
      · have := hlower h
        omega
    · have := hdigit h
      omega
  · rw [eq_of_beq h]
    decide

theorem isIdentifierChar_of_isWhiteSpace (h : isWhiteSpace c = true) :
    isIdentifierChar c = false := by
  rw [Bool.eq_false_iff]
  intro hidentifier
  have hwhite := not_visible_of_isWhiteSpace h
  have hvisible := visible_of_isIdentifierChar hidentifier
  omega

/-- White space that is no blank to the scanner is a part of words to it. -/
theorem isWordChar_of_isWhiteSpace (h : isWhiteSpace c = true) (hseparator : isSeparator c = false)
    (hbreak : c ≠ '\n') : isWordChar c = true := by
  have hne {d : Char} (hd : isWhiteSpace d = false) : c ≠ d := by
    rintro rfl
    rw [h] at hd
    cases hd
  have hmark : Kind.ofChar? c = none := by
    cases hkind : Kind.ofChar? c with
    | none => rfl
    | some kind =>
      unfold Kind.ofChar? at hkind
      split at hkind <;> cases hkind <;> cases h
  simp [isWordChar, hseparator, hbreak, hmark, hne (d := '"') rfl, hne (d := '&') rfl,
    hne (d := '|') rfl]

theorem Kind.first_of_keyword? {s : String} {kind : Kind} (h : keyword? s = some kind) :
    ∃ c cs, s.toList = c :: cs ∧ isIdentifierChar c = true := by
  unfold keyword? at h
  split at h <;> cases h <;> exact ⟨_, _, rfl, rfl⟩

/-- A part that does not start like a name or a numeral is no token. -/
theorem scanPart_invalid (h : isIdentifierChar c = false) (word : List Char) (line : Nat) :
    scanPart (c :: word) line =
      .error ⟨.unexpectedCharacter c, String.ofList (c :: word), line⟩ := by
  obtain ⟨⟨halpha, hdigit⟩, hunderscore⟩ :
      (c.isAlpha = false ∧ c.isDigit = false) ∧ (c == '_') = false := by
    simpa only [isIdentifierChar, Char.isAlphanum, Bool.or_eq_false_iff] using h
  have hkeyword : Kind.keyword? (String.ofList (c :: word)) = none := by
    cases hkind : Kind.keyword? (String.ofList (c :: word)) with
    | none => rfl
    | some kind =>
      obtain ⟨d, ds, hd, hfirst⟩ := Kind.first_of_keyword? hkind
      obtain ⟨rfl, -⟩ := List.cons.inj (String.toList_ofList.symm.trans hd)
      rw [h] at hfirst
      cases hfirst
  have hnumber : Number.read? (c :: word) = none := by
    simp [Number.read?, Number.Numeral.ofChars?, hdigit]
  have hname : isIdentifier (c :: word) = false := by
    simp [isIdentifier, isIdentifierStart, halpha, hunderscore]
  have hfault : wordFault (c :: word) = .unexpectedCharacter c := by
    simp [wordFault, hdigit, h]
  have hwhole : scanWhole? (c :: word) line = none := by
    simp only [scanWhole?, hkeyword, hnumber, Option.map_none]
  simp only [scanPart, hwhole, hname, hfault, Bool.false_eq_true, if_false]

/-- A word of white space is no token. -/
theorem scanWord_white (hword : ∀ d ∈ c :: word, isWhiteSpace d = true) (line : Nat) :
    scanWord (c :: word) line =
      [.error ⟨.unexpectedCharacter c, String.ofList (c :: word), line⟩] := by
  have hdot : ∀ d ∈ c :: word, d ≠ '.' := by
    rintro d hd rfl
    cases hword _ hd
  have hidentifier := isIdentifierChar_of_isWhiteSpace (hword c List.mem_cons_self)
  rw [scanWord_of_no_dot hdot (List.cons_ne_nil c word), scanPart_invalid hidentifier]

-- ---------------------------------------------------------------------------
-- White space in a line
-- ---------------------------------------------------------------------------

/-- A line of white space has no tokens, and has errors unless all of it are blanks. -/
theorem scanLine_white (hbreak : '\n' ∉ cs) (hcs : ∀ c ∈ cs, isWhiteSpace c = true) (line : Nat) :
    (∀ p ∈ scanLine line cs, ∃ e, p = .error e) ∧
      (scanLine line cs = [] ↔ ∀ c ∈ cs, isSeparator c = true) := by
  induction cs using fragments_induction with
  | nil => exact ⟨List.forall_mem_nil _, iff_of_true rfl (List.forall_mem_nil _)⟩
  | cons c cs ih =>
    obtain ⟨hc, hrest⟩ := List.forall_mem_cons.1 hcs
    obtain ⟨hcbreak, hrestbreak⟩ := List.ne_and_not_mem_of_not_mem_cons hbreak
    rw [scanLine_cons]
    by_cases hseparator : isSeparator c = true
    · have hfirst : first c cs = (⟨.blank, [c]⟩, cs) := if_pos hseparator
      rw [hfirst] at ih ⊢
      obtain ⟨herrors, hnil⟩ := ih hrestbreak hrest
      refine ⟨herrors, hnil.trans ?_⟩
      rw [List.forall_mem_cons]
      exact ⟨fun h => ⟨hseparator, h⟩, fun h => h.2⟩
    · have hwordchar := isWordChar_of_isWhiteSpace hc (Bool.eq_false_iff.2 hseparator) hcbreak.symm
      have hfirst := first_of_isWordChar hwordchar cs
      have hdrop : cs.dropWhile isWordChar ⊆ cs := (List.dropWhile_sublist _).subset
      have htake : ∀ d ∈ c :: cs.takeWhile isWordChar, isWhiteSpace d = true :=
        List.forall_mem_cons.2 ⟨hc, fun d hd => hrest d ((List.takeWhile_sublist _).subset hd)⟩
      rw [hfirst] at ih ⊢
      obtain ⟨herrors, -⟩ := ih (fun h => hrestbreak (hdrop h)) fun d hd => hrest d (hdrop hd)
      simp only [Fragment.scan, scanWord_white htake]
      refine ⟨List.forall_mem_cons.2 ⟨⟨_, rfl⟩, herrors⟩,
        iff_of_false (List.cons_ne_nil _ _) fun h => ?_⟩
      exact hseparator (h c List.mem_cons_self)

/-- Tokens that stand for errors are no program. -/
theorem parse_of_errors {ts : List Token} (h : ∀ t ∈ ts, t.kind = .error ∨ t.kind = .endOfFile) :
    (parse ts).statements = [] := by
  induction ts using parse_induction with
  | finish => rfl
  | turn ts r w d hturn ih =>
    have hts : ts = w ++ d.rest := hturn.takes.rest_eq
    rw [hts] at h
    obtain ⟨hw, hrest⟩ := List.forall_mem_append.1 h
    cases hturn with
    | statement _ _ hs =>
      obtain ⟨t, w, rfl⟩ := List.exists_cons_of_ne_nil hs.whole.ne_nil
      obtain ⟨herror, hend⟩ := hs.whole.proper t List.mem_cons_self
      exact absurd (hw t List.mem_cons_self) (not_or.2 ⟨herror, hend⟩)
    | error => exact ih hrest

-- ---------------------------------------------------------------------------
-- Blank lines
-- ---------------------------------------------------------------------------

theorem program_of_blank (hbreak : '\n' ∉ source.toList) (hblank : isBlankLine source = true) :
    (Source.ofText source).program = [] := by
  have hwhite := (isBlankLine_iff_white source).1 hblank
  refine parse_of_errors fun t ht => ?_
  rw [(scan_of_no_break hbreak).1, List.mem_append] at ht
  rcases ht with ht | ht
  · obtain ⟨p, hp, rfl⟩ := List.mem_map.1 ht
    obtain ⟨e, rfl⟩ := (scanLine_white hbreak hwhite 1).1 p hp
    exact .inl rfl
  · rw [List.mem_singleton.1 ht]
    exact .inr rfl

theorem diagnostics_of_blank_iff (hbreak : '\n' ∉ source.toList)
    (hblank : isBlankLine source = true) :
    (Source.ofText source).diagnostics = [] ↔ ∀ c ∈ source.toList, isSeparator c = true := by
  have hwhite := (isBlankLine_iff_white source).1 hblank
  obtain ⟨herrors, hnil⟩ := scanLine_white hbreak hwhite 1
  obtain ⟨htokens, hlexical⟩ := scan_of_no_break hbreak
  rw [← hnil]
  constructor
  · intro h
    have hscan : (scan source).errors = [] :=
      List.map_eq_nil_iff.1 (List.append_eq_nil_iff.1 h).1
    rw [hlexical, List.filterMap_eq_nil_iff] at hscan
    refine List.eq_nil_iff_forall_not_mem.2 fun p hp => ?_
    obtain ⟨e, rfl⟩ := herrors p hp
    cases hscan _ hp
  · intro h
    rw [h] at htokens hlexical
    simp only [Source.diagnostics, Source.ofText, hlexical, htokens]
    rfl

/-- A session skips a line of white space, and a run of the line does nothing but report what the
front end finds. The front end finds nothing exactly if the line has only blanks of the scanner. -/
theorem skipped_line_is_nothing_iff {line : String} (hbreak : '\n' ∉ line.toList)
    (hblank : trimmed line = []) :
    (∀ n m, replLine n line m = some ([], m)) ∧
      (Source.ofText line).program = [] ∧
      (∀ n m, runSource (n + 1) line m =
        some (⟨(Source.ofText line).diagnostics, m.output, none⟩, m.flush.2)) ∧
      ((Source.ofText line).diagnostics = [] ↔ ∀ c ∈ line.toList, isSeparator c = true) := by
  have hskipped := (isBlankLine_iff_trimmed line).2 hblank
  have hprogram := program_of_blank hbreak hskipped
  refine ⟨fun n m => if_pos hskipped, hprogram, fun n m => ?_,
    diagnostics_of_blank_iff hbreak hskipped⟩
  rw [runSource_eq, hprogram]
  rfl

/-- White space that the scanner knows, and white space that it does not know. -/
theorem form_feed_and_ideographic_space :
    let line := "\x0c \u3000\t\r"
    '\n' ∉ line.toList ∧ trimmed line = [] ∧ (Source.ofText line).program = [] ∧
      (Source.ofText line).diagnostics ≠ [] := by
  intro line
  have hbreak : '\n' ∉ line.toList := by simp [line]
  have hblank : trimmed line = [] := by decide
  obtain ⟨-, hprogram, -, hiff⟩ := skipped_line_is_nothing_iff hbreak hblank
  exact ⟨hbreak, hblank, hprogram, fun h => absurd (hiff.1 h '\u3000' (by decide)) (by decide)⟩

/-- A session skips a line with a no-break space only, and the front end has two errors for it. -/
theorem no_break_space_is_reported :
    trimmed "\u00a0" = [] ∧ (∀ m, replLine 1 "\u00a0" m = some ([], m)) ∧
      (Source.ofText "\u00a0").diagnostics =
        [⟨.unexpectedCharacter, "unexpected character '\u00a0'", some 1⟩,
          ⟨.expectedExpression, "expected expression, found '\u00a0'", some 1⟩] :=
  ⟨by decide, fun _ => rfl, rfl⟩

end Lox
