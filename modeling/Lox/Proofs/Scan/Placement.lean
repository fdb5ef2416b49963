-- SUMMARY: Where the tokens of a text stand, and what stands between them.
import Lox.Proofs.Scan.Longest
import Lox.Proofs.Text.Lines
import Lox.Proofs.Unlined.Scan

/-!
## Placement

The lexemes of a line lie in it from left to right, and what is left over are blanks and perhaps a
comment behind them. A text has the tokens of its lines, each on the line that it stands on, and one
token behind them that ends the list (`scan_accounts_for_text`).
-/

namespace Lox

/-- The lexemes lie in the line from left to right. What is left over are blanks, and a comment that
runs to the end of the line. -/
inductive Laid : List Char → List (List Char) → Prop where
  | nil : Laid [] []
  | blank {c cs ws} (hc : isSeparator c = true) (h : Laid cs ws) : Laid (c :: cs) ws
  | comment (cs) : Laid ('/' :: '/' :: cs) []
  | lexeme {w cs ws} (hw : w ≠ []) (h : Laid cs ws) : Laid (w ++ cs) (w :: ws)

def Token.chars (t : Token) : List Char :=
  t.lexeme.toList

variable {word w v cs : List Char} {ws : List (List Char)} {ps qs : List Scanned} {line : Nat}

-- ---------------------------------------------------------------------------
-- Pieces without anything between them
-- ---------------------------------------------------------------------------

/-- The pieces are on the line, and their lexemes make up the text. None of them is empty. -/
inductive Covers (line : Nat) : List Scanned → List Char → Prop where
  | nil : Covers line [] []
  | cons {p ps w} (hline : p.token.line = line) (hp : p.token.chars ≠ []) (h : Covers line ps w) :
      Covers line (p :: ps) (p.token.chars ++ w)

namespace Covers

theorem single {p : Scanned} (hline : p.token.line = line) (hp : p.token.chars = w) (hw : w ≠ []) :
    Covers line [p] w := by
  subst hp
  simpa using Covers.cons hline hw .nil

theorem append (h : Covers line ps w) (h' : Covers line qs v) :
    Covers line (ps ++ qs) (w ++ v) := by
  induction h with
  | nil => exact h'
  | cons hline hp _ ih =>
    rw [List.append_assoc]
    exact .cons hline hp ih

theorem flatMap {α : Type} {f : α → List Scanned} {g : α → List Char} (as : List α)
    (h : ∀ a, Covers line (f a) (g a)) : Covers line (as.flatMap f) (as.flatMap g) := by
  induction as with
  | nil => exact .nil
  | cons a as ih => exact (h a).append ih

theorem on_line (h : Covers line ps w) : ∀ p ∈ ps, p.token.line = line := by
  induction h with
  | nil => exact List.forall_mem_nil _
  | cons hline _ _ ih => exact List.forall_mem_cons.2 ⟨hline, ih⟩

theorem laid (hps : Covers line ps w) (h : Laid cs ws) :
    Laid (w ++ cs) (ps.map (fun p => p.token.chars) ++ ws) := by
  induction hps with
  | nil => exact h
  | cons _ hp _ ih =>
    rw [List.append_assoc]
    exact .lexeme hp ih

end Covers

-- ---------------------------------------------------------------------------
-- Words
-- ---------------------------------------------------------------------------

theorem scanWhole?_on_line {t : Token} (h : scanWhole? word line = some t) :
    t.line = line ∧ t.chars = word := by
  have hword : (String.ofList word).toList = word := String.toList_ofList
  unfold scanWhole? at h
  dsimp only at h
  split at h
  · cases h
    exact ⟨rfl, hword⟩
  · obtain ⟨x, -, rfl⟩ := Option.map_eq_some_iff.1 h
    exact ⟨rfl, hword⟩

theorem scanPart_on_line (word : List Char) (line : Nat) :
    (scanPart word line).token.line = line ∧ (scanPart word line).token.chars = word := by
  have hword : (String.ofList word).toList = word := String.toList_ofList
  unfold scanPart
  split
  · next h => exact scanWhole?_on_line h
  · split <;> exact ⟨rfl, hword⟩

theorem scanPart?_covers (word : List Char) (line : Nat) :
    Covers line (scanPart? word line) word := by
  obtain ⟨hline, hchars⟩ := scanPart_on_line word line
  unfold scanPart?
  split
  · next h =>
    rw [List.isEmpty_iff.1 h]
    exact .nil
  · next h => exact .single hline hchars fun hnil => h (List.isEmpty_iff.2 hnil)

/-- The parts of a word and the dots between them make up the word. -/
theorem dotParts_join (word : List Char) :
    ∃ part parts, dotParts word = part :: parts ∧ part ++ parts.flatMap ('.' :: ·) = word := by
  induction word with
  | nil => exact ⟨[], [], rfl, rfl⟩
  | cons c cs ih =>
    obtain ⟨part, parts, hparts, hjoin⟩ := ih
    unfold dotParts
    rw [hparts]
    split
    · next hdot => exact ⟨[], _, rfl, by rw [hdot, ← hjoin]; rfl⟩
    · exact ⟨_, _, rfl, by rw [← hjoin]; rfl⟩

theorem scanWord_covers (hword : word ≠ []) (line : Nat) :
    Covers line (scanWord word line) word := by
  unfold scanWord
  split
  · next t h =>
    obtain ⟨hline, hchars⟩ := scanWhole?_on_line h
    exact .single (p := .ok t) hline hchars hword
  · obtain ⟨part, parts, hparts, hjoin⟩ := dotParts_join word
    have hdot (part : List Char) :
        Covers line (.ok (dotToken line) :: scanPart? part line) ('.' :: part) :=
      have hchars : (dotToken line).chars = ['.'] := by simp [Token.chars, dotToken]
      (Covers.single (p := .ok (dotToken line)) rfl hchars (List.cons_ne_nil _ _)).append
        (scanPart?_covers part line)
    have hcovers := (scanPart?_covers part line).append (.flatMap parts hdot)
    rw [hjoin] at hcovers
    rw [hparts]
    exact hcovers

-- ---------------------------------------------------------------------------
-- Lines
-- ---------------------------------------------------------------------------

/-- Every fragment but a blank or a comment is all lexemes. -/
theorem Fragment.scan_covers {f : Fragment} (hne : f.text ≠ []) (hblank : f.shape ≠ .blank)
    (hcomment : f.shape ≠ .comment) (line : Nat) : Covers line (f.scan line) f.text := by
  obtain ⟨shape, text⟩ := f
  have htext : (String.ofList text).toList = text := String.toList_ofList
  cases shape with
  | blank => exact absurd rfl hblank
  | comment => exact absurd rfl hcomment
  | closed | unclosed | mark | stray => exact .single rfl htext hne
  | word => exact scanWord_covers hne line

theorem Fragment.markOrWord_shape (c : Char) (cs : List Char) :
    (markOrWord c cs).1.shape ≠ .blank ∧ (markOrWord c cs).1.shape ≠ .comment := by
  unfold markOrWord
  split
  · exact ⟨nofun, nofun⟩
  · split
    · exact ⟨nofun, nofun⟩
    · split <;> exact ⟨nofun, nofun⟩

theorem Fragment.first_shape (c : Char) (cs : List Char) :
    (isSeparator c = true ∧ first c cs = (⟨.blank, [c]⟩, cs)) ∨
      (∃ rest, c :: cs = '/' :: '/' :: rest ∧ first c cs = (⟨.comment, c :: cs⟩, [])) ∨
        ((first c cs).1.shape ≠ .blank ∧ (first c cs).1.shape ≠ .comment) := by
  unfold first
  split
  · next hc => exact .inl ⟨hc, rfl⟩
  · split
    · split <;> exact .inr (.inr ⟨nofun, nofun⟩)
    · split
      · next h =>
        obtain ⟨rfl, hslash⟩ := h
        obtain ⟨rest, rfl⟩ := List.head?_eq_some_iff.1 hslash
        exact .inr (.inl ⟨rest, rfl, rfl⟩)
      · exact .inr (.inr (markOrWord_shape c cs))

theorem scanLine_laid (line : Nat) (cs : List Char) :
    Laid cs ((scanLine line cs).map fun p => p.token.chars) ∧
      ∀ p ∈ scanLine line cs, p.token.line = line := by
  induction cs using fragments_induction with
  | nil => exact ⟨.nil, List.forall_mem_nil _⟩
  | cons c cs ih =>
    obtain ⟨hlaid, hline⟩ := ih
    rw [scanLine_cons, List.map_append]
    rcases Fragment.first_shape c cs with ⟨hc, hfirst⟩ | ⟨rest, hcs, hfirst⟩ | ⟨hblank, hcomment⟩
    · rw [hfirst] at hlaid hline ⊢
      exact ⟨.blank hc hlaid, hline⟩
    · rw [hfirst, hcs]
      exact ⟨.comment rest, List.forall_mem_nil _⟩
    · have hcovers := Fragment.scan_covers (Fragment.first_text_ne_nil c cs) hblank hcomment line
      have hfirst := hcovers.laid hlaid
      rw [Fragment.first_append] at hfirst
      exact ⟨hfirst, List.forall_mem_append.2 ⟨hcovers.on_line, hline⟩⟩

-- ---------------------------------------------------------------------------
-- Texts
-- ---------------------------------------------------------------------------

theorem linesFrom_no_break {line cs : List Char} (hline : '\n' ∉ line) :
    ∀ l ∈ linesFrom '\n' '\r' line cs, '\n' ∉ l := by
  induction cs generalizing line with
  | nil =>
    unfold linesFrom
    split
    · exact List.forall_mem_nil _
    · exact List.forall_mem_singleton.2 (by simpa using hline)
  | cons c cs ih =>
    unfold linesFrom
    split
    · refine List.forall_mem_cons.2 ⟨?_, ih List.not_mem_nil⟩
      rw [List.mem_reverse]
      unfold dropReturn
      split
      · exact List.not_mem_nil
      · split
        · exact List.not_mem_of_not_mem_cons hline
        · exact hline
    · next hc =>
      refine ih ?_
      rw [List.mem_cons, not_or]
      exact ⟨fun h => hc (beq_iff_eq.2 h.symm), hline⟩

/-- The pieces of some lines, where `first` is the number of the first. -/
theorem scanLines_placed (first : Nat) (lines : List (List Char))
    (h : first + lines.length ≤ lastLine + 1) :
    (∀ p ∈ scanLines first lines, first ≤ p.token.line ∧ p.token.line < first + lines.length) ∧
      ((scanLines first lines).map fun p => p.token.line).Pairwise (· ≤ ·) ∧
        ∀ i cs, lines[i]? = some cs →
          (scanLines first lines).filter (fun p => p.token.line = first + i) =
            scanLine (first + i) cs := by
  induction lines generalizing first with
  | nil => exact ⟨List.forall_mem_nil _, .nil, nofun⟩
  | cons cs rest ih =>
    rw [List.length_cons] at h
    obtain ⟨hwithin, hsorted, hfilter⟩ := ih (first + 1) (by omega)
    have hfirst : min first lastLine = first := by omega
    have hon := (scanLine_laid first cs).2
    rw [scanLines, hfirst]
    refine ⟨?_, ?_, ?_⟩
    · refine List.forall_mem_append.2 ⟨fun p hp => ?_, fun p hp => ?_⟩
      · rw [hon p hp, List.length_cons]
        omega
      · have := hwithin p hp
        rw [List.length_cons]
        omega
    · rw [List.map_append, List.pairwise_append]
      refine ⟨?_, hsorted, ?_⟩
      · rw [List.pairwise_map]
        exact List.pairwise_of_forall_mem_list fun p hp q hq =>
          Nat.le_of_eq ((hon p hp).trans (hon q hq).symm)
      · simp only [List.mem_map]
        rintro _ ⟨p, hp, rfl⟩ _ ⟨q, hq, rfl⟩
        have := hon p hp
        have := hwithin q hq
        omega
    · intro i l hl
      rw [List.filter_append]
      cases i with
      | zero =>
        cases hl
        rw [List.filter_eq_self.2 fun p hp => by simpa using hon p hp,
          List.filter_eq_nil_iff.2 fun p hp => ?_, List.append_nil]
        · rfl
        · have := hwithin p hp
          simp only [decide_eq_true_eq]
          omega
      | succ i =>
        rw [List.filter_eq_nil_iff.2 fun p hp => ?_, List.nil_append]
        · have hrest := hfilter i l hl
          rwa [Nat.add_right_comm] at hrest
        · have := hon p hp
          simp only [decide_eq_true_eq]
          omega

/-- The errors are the error tokens. -/
theorem errors_map_token (h : ∀ p ∈ ps, p.Proper) :
    (ps.filterMap Scanned.error?).map LexicalError.token =
      (ps.map Scanned.token).filter (·.kind = .error) := by
  induction ps with
  | nil => rfl
  | cons p ps ih =>
    obtain ⟨hp, hps⟩ := List.forall_mem_cons.1 h
    cases p with
    | ok t =>
      have hkind : t.kind ≠ .error := hp.2
      simpa [List.filterMap_cons, Scanned.error?, Scanned.token, hkind] using ih hps
    | error e =>
      simpa [List.filterMap_cons, Scanned.error?, Scanned.token, LexicalError.token] using ih hps

theorem scan_tokens {source : String} (h : (textLines source).length < lastLine) :
    (scan source).tokens = (scanLines 1 (textLines source)).map Scanned.token ++
      [.endOfFile ((textLines source).length + 1)] := by
  rw [scan, Nat.min_eq_left h]

/-- The tokens and errors of a text that is one line. -/
theorem scan_of_no_break {source : String} (h : '\n' ∉ source.toList) :
    (scan source).tokens = (scanLine 1 source.toList).map Scanned.token ++
        [.endOfFile (if source = "" then 1 else 2)] ∧
      (scan source).errors = (scanLine 1 source.toList).filterMap Scanned.error? := by
  by_cases hempty : source = ""
  · subst hempty
    exact ⟨rfl, rfl⟩
  · have hlines : textLines source = [source.toList] :=
      linesBetween_of_no_break (fun h => hempty (String.toList_eq_nil_iff.1 h)) h
    simp [scan, hlines, scanLines, lastLine, hempty]

/-- The tokens on a line are those of its fragments. -/
theorem tokens_on_line {source : String} {i : Nat} {line : List Char}
    (h : (textLines source).length < lastLine) (hline : (textLines source)[i]? = some line) :
    (scan source).tokens.filter (·.line = i + 1) =
      (scanLine (i + 1) line).map Scanned.token := by
  obtain ⟨-, -, hfilter⟩ := scanLines_placed 1 (textLines source) (by omega)
  have hi := (List.getElem?_eq_some_iff.1 hline).1
  have hlast : ¬ (textLines source).length = i := by omega
  rw [Nat.add_comm i 1, ← hfilter i line hline, scan_tokens h]
  simp [Token.endOfFile, hlast, List.filter_map, Function.comp_def, Nat.add_comm 1 i]

/-- The tokens of a text stand on its lines, but for the last one, which ends the list. -/
theorem scan_tokens_eq {source : String} (h : (textLines source).length < lastLine) :
    ∃ ts : List Token, (scan source).tokens = ts ++ [.endOfFile ((textLines source).length + 1)] ∧
      ∀ t ∈ ts, t.kind ≠ .endOfFile ∧ 1 ≤ t.line ∧ t.line ≤ (textLines source).length := by
  obtain ⟨hwithin, -, -⟩ := scanLines_placed 1 (textLines source) (by omega)
  refine ⟨_, scan_tokens h, List.forall_mem_map.2 fun p hp => ?_⟩
  have := hwithin p hp
  exact ⟨(scanLines_proper 1 _ p hp).kind_ne, by omega⟩

theorem scan_lines_sorted {source : String} (h : (textLines source).length < lastLine) :
    ((scan source).tokens.map Token.line).Pairwise (· ≤ ·) := by
  obtain ⟨hwithin, hsorted, -⟩ := scanLines_placed 1 (textLines source) (by omega)
  rw [scan_tokens h, List.map_append, List.pairwise_append]
  refine ⟨by simpa [Function.comp_def] using hsorted, List.pairwise_singleton _ _, ?_⟩
  simp only [List.mem_map]
  rintro _ ⟨_, ⟨p, hp, rfl⟩, rfl⟩ _ ⟨_, hq, rfl⟩
  have := hwithin p hp
  obtain rfl := List.mem_singleton.1 hq
  simp only [Token.endOfFile]
  omega

/-- Scanning loses nothing, invents nothing and misplaces nothing. There is one way to cut a line by
longest match, and the tokens on the line are those of its fragments: they lie in the line from left
to right, with blanks between them and perhaps a comment behind them. One more token ends the list,
no token stands on an earlier line than one in front of it, and the errors are the error tokens. -/
theorem scan_accounts_for_text {source : String} (h : (textLines source).length < lastLine) :
    (∀ i line, (textLines source)[i]? = some line →
      ∃ fs, (∀ gs, Dissected line gs ↔ gs = fs) ∧
        (scan source).tokens.filter (·.line = i + 1) =
          (fs.flatMap (Fragment.scan (i + 1))).map Scanned.token ∧
        Laid line (((scan source).tokens.filter (·.line = i + 1)).map Token.chars)) ∧
    (∃ ts, (scan source).tokens = ts ++ [.endOfFile ((textLines source).length + 1)] ∧
      ∀ t ∈ ts, t.kind ≠ .endOfFile ∧ 1 ≤ t.line ∧ t.line ≤ (textLines source).length) ∧
    ((scan source).tokens.map Token.line).Pairwise (· ≤ ·) ∧
    (scan source).errors.map LexicalError.token =
      (scan source).tokens.filter (·.kind = .error) := by
  refine ⟨fun i line hline => ⟨fragments line, dissected_iff ?_, tokens_on_line h hline, ?_⟩,
    scan_tokens_eq h, scan_lines_sorted h, ?_⟩
  · exact linesFrom_no_break List.not_mem_nil line (List.mem_of_getElem? hline)
  · rw [tokens_on_line h hline, List.map_map]
    exact (scanLine_laid (i + 1) line).1
  · rw [scan_tokens h, List.filter_append]
    exact (errors_map_token (scanLines_proper 1 _)).trans (List.append_nil _).symm

/-- A dotted word with a part that is no number, a comment, and a string that does not end. -/
theorem dotted_word_accounted_for :
    (textLines "a.1x //b\n\"c").length < lastLine ∧
      Laid "a.1x //b".toList ["a".toList, ".".toList, "1x".toList] ∧
        (scan "a.1x //b\n\"c").errors.map LexicalError.token =
          [⟨.error, "1x", 1, none⟩, ⟨.error, "\"c", 2, none⟩] := by
  have hlines : (textLines "a.1x //b\n\"c").length < lastLine := by decide
  obtain ⟨hline, -, -, herrors⟩ := scan_accounts_for_text hlines
  obtain ⟨-, -, -, hlaid⟩ := hline 0 "a.1x //b".toList rfl
  exact ⟨hlines, hlaid, herrors⟩

end Lox
