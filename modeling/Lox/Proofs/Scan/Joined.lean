-- SUMMARY: Two texts with a line break between them have the tokens of one and then of the other.
import Lox.Proofs.Scan.Placement

/-!
## Joined texts

Nothing that stands on one line has an influence on another line, except for the line numbers. So
the tokens of two texts with a line break between them are those of the first text and then those of
the second, as many lines further down as the first text has breaks, and one more (`scan_joined`).
A text that ends in a return is left out, because the break makes the return a part of its ending.
-/

namespace Lox

variable {p : Scanned} {line k : Nat}

-- ---------------------------------------------------------------------------
-- Pieces further down
-- ---------------------------------------------------------------------------

/-- The token `k` lines further down. -/
def Token.down (k : Nat) (t : Token) : Token :=
  { t with line := t.line + k }

def LexicalError.down (k : Nat) (e : LexicalError) : LexicalError :=
  { e with line := e.line + k }

namespace Scanned

def down (k : Nat) : Scanned → Scanned
  | .ok t => .ok (t.down k)
  | .error e => .error (e.down k)

/-- The piece on another line. -/
def onLine (line : Nat) : Scanned → Scanned
  | .ok t => .ok { t with line }
  | .error e => .error { e with line }

theorem token_down (k : Nat) (p : Scanned) : (p.down k).token = p.token.down k := by
  cases p <;> rfl

theorem error?_down (k : Nat) (p : Scanned) :
    (p.down k).error? = p.error?.map (LexicalError.down k) := by
  cases p <;> rfl

theorem down_onLine (k line : Nat) (p : Scanned) :
    (p.onLine line).down k = p.onLine (line + k) := by
  cases p <;> rfl

theorem onLine_unlined (h : p.token.line = line) : p.unlined.onLine line = p := by
  subst h
  cases p <;> rfl

end Scanned

/-- The number of its line is all that a piece knows of other lines. -/
theorem scanLine_onLine (line : Nat) (cs : List Char) :
    scanLine line cs = (scanLine 0 cs).map (Scanned.onLine line) := by
  have hline := (scanLine_laid line cs).2
  calc
    scanLine line cs = (scanLine line cs).map id := (List.map_id _).symm
    _ = (scanLine line cs).map (Scanned.onLine line ∘ Scanned.unlined) :=
      List.map_congr_left fun p hp => (Scanned.onLine_unlined (hline p hp)).symm
    _ = (scanLine 0 cs).map (Scanned.onLine line) := by
      rw [scanLine_unlined line cs, List.map_map]

theorem scanLine_down (line k : Nat) (cs : List Char) :
    scanLine (line + k) cs = (scanLine line cs).map (Scanned.down k) := by
  rw [scanLine_onLine (line + k), scanLine_onLine line, List.map_map]
  exact List.map_congr_left fun p _ => (p.down_onLine k line).symm

/-- Lines that stand further down have the same pieces, as long as the line numbers do not run
out. -/
theorem scanLines_down {lines : List (List Char)} (h : line + k + lines.length ≤ lastLine + 1) :
    scanLines (line + k) lines = (scanLines line lines).map (Scanned.down k) := by
  induction lines generalizing line with
  | nil => rfl
  | cons cs lines ih =>
    rw [List.length_cons] at h
    have hfirst : min line lastLine = line := by omega
    have hdown : min (line + k) lastLine = line + k := by omega
    have hrest : scanLines (line + 1 + k) lines =
        (scanLines (line + 1) lines).map (Scanned.down k) := ih (by omega)
    rw [Nat.add_right_comm] at hrest
    rw [scanLines, scanLines, hfirst, hdown, List.map_append, scanLine_down, hrest]

theorem scanLines_append (line : Nat) (lines more : List (List Char)) :
    scanLines line (lines ++ more) =
      scanLines line lines ++ scanLines (line + lines.length) more := by
  induction lines generalizing line with
  | nil => rfl
  | cons cs lines ih =>
    rw [List.cons_append, scanLines, scanLines, ih, List.append_assoc, List.length_cons,
      Nat.add_right_comm, Nat.add_assoc]

-- ---------------------------------------------------------------------------
-- A break at the end of a text
-- ---------------------------------------------------------------------------

/-- A break at the end of a text makes no line but an empty one, and takes nothing off the line in
front of it but a return. -/
theorem scanLines_break {before cs : List Char}
    (h : (before.reverse ++ cs).getLast? ≠ some '\r') (line : Nat) :
    scanLines line (linesFrom '\n' '\r' before (cs ++ ['\n'])) =
      scanLines line (linesFrom '\n' '\r' before cs) := by
  -- on the way `before` is what stands of the line in front of `cs`, last character first
  induction cs generalizing before line with
  | nil =>
    cases before with
    | nil => rfl
    | cons c before =>
      have hc : c ≠ '\r' := by
        rintro rfl
        simp at h
      simp [linesFrom, dropReturn, hc]
  | cons c cs ih =>
    rw [List.cons_append, linesFrom, linesFrom]
    split
    · refine congrArg (scanLine _ _ ++ ·) (ih ?_ (line + 1))
      intro hcs
      rw [List.reverse_nil, List.nil_append] at hcs
      simp [List.getLast?_append, List.getLast?_cons, hcs] at h
    · exact ih (by simpa using h) line

-- ---------------------------------------------------------------------------
-- Two texts
-- ---------------------------------------------------------------------------

theorem textLines_joined (a b : String) :
    textLines (a ++ "\n" ++ b) = linesBetween '\n' '\r' (a.toList ++ ['\n']) ++ textLines b := by
  have htext : (a ++ "\n" ++ b).toList = a.toList ++ '\n' :: b.toList := by
    simp [String.toList_append]
  rw [textLines, linesBetween, htext, linesFrom_append]
  rfl

theorem length_textLines_joined (a b : String) :
    (textLines (a ++ "\n" ++ b)).length = a.toList.count '\n' + 1 + (textLines b).length := by
  rw [textLines_joined, List.length_append, linesBetween, length_linesFrom_break]

/-- The pieces of the second text stand below those of the first. -/
theorem scanLines_joined {a b : String} (hreturn : a.toList.getLast? ≠ some '\r')
    (h : (textLines (a ++ "\n" ++ b)).length ≤ lastLine) :
    scanLines 1 (textLines (a ++ "\n" ++ b)) =
      scanLines 1 (textLines a) ++
        (scanLines 1 (textLines b)).map (Scanned.down (a.toList.count '\n' + 1)) := by
  rw [length_textLines_joined] at h
  have hfirst : scanLines 1 (linesBetween '\n' '\r' (a.toList ++ ['\n'])) =
      scanLines 1 (textLines a) := scanLines_break hreturn 1
  rw [textLines_joined, scanLines_append, hfirst, linesBetween, length_linesFrom_break,
    scanLines_down (by omega)]

/-- Scanning works line by line. The tokens of two texts with a line break between them are those of
the first, without the one that ends the list, and then those of the second on lines further down;
so are the errors. -/
theorem scan_joined {a b : String} (hreturn : a.toList.getLast? ≠ some '\r')
    (h : (textLines (a ++ "\n" ++ b)).length < lastLine) :
    let k := a.toList.count '\n' + 1
    (∃ ts line, (scan a).tokens = ts ++ [.endOfFile line] ∧
      (scan (a ++ "\n" ++ b)).tokens = ts ++ (scan b).tokens.map (Token.down k)) ∧
    (scan (a ++ "\n" ++ b)).errors =
      (scan a).errors ++ (scan b).errors.map (LexicalError.down k) := by
  intro k
  have hlength : (textLines (a ++ "\n" ++ b)).length = k + (textLines b).length :=
    length_textLines_joined a b
  have hpieces : scanLines 1 (textLines (a ++ "\n" ++ b)) =
      scanLines 1 (textLines a) ++ (scanLines 1 (textLines b)).map (Scanned.down k) :=
    scanLines_joined hreturn (Nat.le_of_lt h)
  have hlast : Token.endOfFile ((textLines (a ++ "\n" ++ b)).length + 1) =
      (Token.endOfFile ((textLines b).length + 1)).down k := by
    rw [hlength, Nat.add_assoc, Nat.add_comm k]
    rfl
  refine ⟨⟨(scanLines 1 (textLines a)).map Scanned.token, _, rfl, ?_⟩, ?_⟩
  · rw [scan_tokens h, scan_tokens (by omega), hpieces, hlast]
    simp [Function.comp_def, Scanned.token_down]
  · simp only [scan, hpieces, List.filterMap_append, List.filterMap_map, List.map_filterMap,
      Function.comp_def, Scanned.error?_down]

/-- A string that does not end stops at the break, and a quote in a comment starts no string. -/
theorem open_string_joined_to_comment :
    let a := "\"no end"
    let b := "// \"\n@"
    a.toList.getLast? ≠ some '\r' ∧ (textLines (a ++ "\n" ++ b)).length < lastLine ∧
      (∃ ts line, (scan a).tokens = ts ++ [.endOfFile line] ∧
        (scan (a ++ "\n" ++ b)).tokens = ts ++ (scan b).tokens.map (Token.down 1)) ∧
      (scan (a ++ "\n" ++ b)).errors =
        [⟨.unterminatedString, "\"no end", 1⟩, ⟨.unexpectedCharacter '@', "@", 3⟩] := by
  intro a b
  have hreturn : a.toList.getLast? ≠ some '\r' := by decide
  have hlines : (textLines (a ++ "\n" ++ b)).length < lastLine := by decide
  have hdown : a.toList.count '\n' + 1 = 1 := by decide
  obtain ⟨htokens, herrors⟩ := scan_joined hreturn hlines
  rw [hdown] at htokens herrors
  exact ⟨hreturn, hlines, htokens, herrors.trans (by decide)⟩

end Lox
