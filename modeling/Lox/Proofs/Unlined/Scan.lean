-- SUMMARY: The scanner works line by line, and line numbers are all that it knows of other lines.
import Lox.Proofs.Scan.Longest
import Lox.Proofs.Unlined.Basic

/-!
## Scanning without lines

Without line numbers the pieces of a text are those of its lines, one line after the other. So a
text in two parts with a line break between them has the pieces of the first part and then those of
the second (`pieces_append`). The break turns a return before it into a part of the line ending;
that makes no difference unless the return stands in a string without an end, which is an error
anyway.
-/

namespace Lox

-- ---------------------------------------------------------------------------
-- Pieces without lines
-- ---------------------------------------------------------------------------

namespace Scanned

def unlined : Scanned → Scanned
  | .ok t => .ok t.unlined
  | .error e => .error e.unlined

theorem token_unlined (p : Scanned) : p.unlined.token = p.token.unlined := by
  cases p <;> rfl

theorem error?_unlined (p : Scanned) : p.unlined.error? = p.error?.map LexicalError.unlined := by
  cases p <;> rfl

end Scanned

theorem scanWhole?_unlined (word : List Char) (line : Nat) :
    scanWhole? word 0 = (scanWhole? word line).map Token.unlined := by
  unfold scanWhole?
  dsimp only
  split
  · rfl
  · rw [Option.map_map]
    rfl

theorem scanPart_unlined (word : List Char) (line : Nat) :
    scanPart word 0 = (scanPart word line).unlined := by
  unfold scanPart
  rw [scanWhole?_unlined word line]
  cases scanWhole? word line with
  | some t => rfl
  | none =>
    dsimp only [Option.map_none]
    split <;> rfl

theorem scanPart?_unlined (word : List Char) (line : Nat) :
    scanPart? word 0 = (scanPart? word line).map Scanned.unlined := by
  unfold scanPart?
  split
  · rfl
  · rw [scanPart_unlined word line]
    rfl

theorem scanParts_unlined (parts : List (List Char)) (line : Nat) :
    scanParts parts 0 = (scanParts parts line).map Scanned.unlined := by
  cases parts with
  | nil => rfl
  | cons part parts =>
    simp only [scanParts, List.map_append, List.map_flatMap, List.map_cons,
      ← scanPart?_unlined _ line]
    rfl

theorem scanWord_unlined (word : List Char) (line : Nat) :
    scanWord word 0 = (scanWord word line).map Scanned.unlined := by
  unfold scanWord
  rw [scanWhole?_unlined word line]
  cases scanWhole? word line with
  | some t => rfl
  | none => exact scanParts_unlined (dotParts word) line

theorem Fragment.scan_unlined (f : Fragment) (line : Nat) :
    f.scan 0 = (f.scan line).map Scanned.unlined := by
  obtain ⟨shape, text⟩ := f
  cases shape with
  | word => exact scanWord_unlined text line
  | blank | comment | closed | unclosed | mark | stray => rfl

theorem scanLine_unlined (line : Nat) (cs : List Char) :
    scanLine 0 cs = (scanLine line cs).map Scanned.unlined := by
  simp only [scanLine, List.map_flatMap, ← Fragment.scan_unlined]

/-- The pieces of lines, all of them on line zero. -/
def piecesOf (lines : List (List Char)) : List Scanned :=
  lines.flatMap (scanLine 0)

theorem scanLines_unlined (line : Nat) (lines : List (List Char)) :
    piecesOf lines = (scanLines line lines).map Scanned.unlined := by
  induction lines generalizing line with
  | nil => rfl
  | cons cs rest ih =>
    rw [scanLines, List.map_append, ← scanLine_unlined, ← ih (line + 1)]
    rfl

/-- The pieces of a text without lines. -/
def pieces (source : String) : List Scanned :=
  piecesOf (textLines source)

theorem scan_tokens_unlined (source : String) :
    (scan source).tokens.map Token.unlined =
      (pieces source).map Scanned.token ++ [.endOfFile 0] := by
  simp only [scan, pieces, scanLines_unlined 1, List.map_append, List.map_map]
  congr 1
  exact List.map_congr_left fun p _ => (p.token_unlined).symm

theorem scan_errors_unlined (source : String) :
    (scan source).errors.map LexicalError.unlined = (pieces source).filterMap Scanned.error? := by
  simp only [scan, pieces, scanLines_unlined 1, List.filterMap_map, List.map_filterMap]
  exact congrArg (List.filterMap · _) (funext fun p => p.error?_unlined.symm)

-- ---------------------------------------------------------------------------
-- A return at the end of a line
-- ---------------------------------------------------------------------------

theorem scanLine_cons (line : Nat) (c : Char) (cs : List Char) :
    scanLine line (c :: cs) =
      (Fragment.first c cs).1.scan line ++ scanLine line (Fragment.first c cs).2 := by
  rw [scanLine, fragments_cons, List.flatMap_cons]
  rfl

theorem closeQuote_return (cs : List Char) :
    closeQuote (cs ++ ['\r']) = (closeQuote cs).map fun (body, rest) => (body, rest ++ ['\r']) := by
  fun_induction closeQuote cs with
  | case1 => rfl
  | case2 cs => rfl
  | case3 c cs ih =>
    rw [List.cons_append, List.cons_append, closeQuote, ih]
    simp [Function.comp_def]
  | case4 c cs hquote hescape ih =>
    by_cases hc : c = '\\'
    · subst hc
      cases cs with
      | nil => rfl
      | cons d cs => exact absurd rfl (hescape d cs rfl)
    · have hrest (rest : List Char) : closeQuote (c :: rest) =
          (closeQuote rest).map fun (body, rest) => (c :: body, rest) := by
        rw [closeQuote]
        · exact hquote
        · exact fun _ _ h => absurd h hc
      rw [List.cons_append, hrest, ih]
      simp [Function.comp_def]

theorem takeWhile_append_singleton {p : Char → Bool} {c : Char} (h : p c = false) (cs : List Char) :
    (cs ++ [c]).takeWhile p = cs.takeWhile p ∧ (cs ++ [c]).dropWhile p = cs.dropWhile p ++ [c] := by
  induction cs with
  | nil => simp [h]
  | cons d cs ih =>
    cases hd : p d <;> simp [hd, ih]

namespace Fragment

theorem markOrWord_return (c : Char) (cs : List Char) :
    markOrWord c (cs ++ ['\r']) = ((markOrWord c cs).1, (markOrWord c cs).2 ++ ['\r']) := by
  obtain ⟨htake, hdrop⟩ := takeWhile_append_singleton (p := isWordChar) (c := '\r') (by decide) cs
  unfold markOrWord
  rw [htake, hdrop]
  split
  · rfl
  · cases cs with
    | nil =>
      have hreturn : SetOff ['\r'] := by
        rintro _ ⟨⟩
        rfl
      simp only [List.nil_append, List.head?_nil, Option.bind_none, hreturn.ofPair?_eq_none]
      split <;> rfl
    | cons d cs =>
      simp only [List.cons_append, List.head?_cons, Option.bind_some]
      split
      · rfl
      · split <;> rfl

/-- A return behind a line is left behind the first fragment too, unless that takes all of the line:
a comment, or a string without an end. -/
theorem first_return (c : Char) (cs : List Char) :
    first c (cs ++ ['\r']) = ((first c cs).1, (first c cs).2 ++ ['\r']) ∨
      (first c (cs ++ ['\r'])).1.shape = .unclosed ∨
        ∃ text text', first c (cs ++ ['\r']) = (⟨.comment, text⟩, []) ∧
          first c cs = (⟨.comment, text'⟩, []) := by
  unfold first
  split
  · exact .inl rfl
  · split
    · rw [closeQuote_return]
      cases closeQuote cs with
      | none => exact .inr (.inl rfl)
      | some result => exact .inl rfl
    · have hhead : (cs ++ ['\r']).head? = some '/' ↔ cs.head? = some '/' := by
        cases cs <;> simp
      simp only [hhead]
      split
      · exact .inr (.inr ⟨_, _, rfl, rfl⟩)
      · exact .inl (markOrWord_return c cs)

end Fragment

/-- In a line without errors a return at its end is of no account. -/
theorem scanLine_return {line : Nat} {cs : List Char}
    (h : (scanLine line (cs ++ ['\r'])).filterMap Scanned.error? = []) :
    scanLine line (cs ++ ['\r']) = scanLine line cs := by
  induction cs using fragments_induction with
  | nil => rfl
  | cons c cs ih =>
    rw [List.cons_append, scanLine_cons] at h ⊢
    rw [scanLine_cons]
    obtain ⟨hfirst, hrest⟩ := List.append_eq_nil_iff.1 (List.filterMap_append .. ▸ h)
    rcases Fragment.first_return c cs with hsame | hunclosed | ⟨_, _, hcomment, hcomment'⟩
    · rw [hsame] at hrest ⊢
      rw [ih hrest]
    · simp [Fragment.scan, hunclosed, Scanned.error?] at hfirst
    · rw [hcomment, hcomment']
      rfl

-- ---------------------------------------------------------------------------
-- Two texts with a line break between them
-- ---------------------------------------------------------------------------

theorem linesFrom_append (line first second : List Char) :
    linesFrom '\n' '\r' line (first ++ '\n' :: second) =
      linesFrom '\n' '\r' line (first ++ ['\n']) ++ linesFrom '\n' '\r' [] second := by
  induction first generalizing line with
  | nil => rfl
  | cons c first ih =>
    simp only [List.cons_append, linesFrom]
    split
    · rw [ih, List.cons_append]
    · exact ih (c :: line)

/-- A line break at the end of a text without errors is of no account. -/
theorem piecesOf_break {line first : List Char}
    (h : (piecesOf (linesFrom '\n' '\r' line first)).filterMap Scanned.error? = []) :
    piecesOf (linesFrom '\n' '\r' line (first ++ ['\n'])) =
      piecesOf (linesFrom '\n' '\r' line first) := by
  induction first generalizing line with
  | nil =>
    cases line with
    | nil => rfl
    | cons c line =>
      by_cases hc : c = '\r'
      · subst hc
        have hline : linesFrom '\n' '\r' ('\r' :: line) [] = [line.reverse ++ ['\r']] := by
          simp [linesFrom]
        have hbroken : linesFrom '\n' '\r' ('\r' :: line) ['\n'] = [line.reverse] := by
          simp [linesFrom, dropReturn]
        rw [List.nil_append, hbroken, hline]
        rw [hline, piecesOf, List.flatMap_singleton] at h
        simp [piecesOf, scanLine_return h]
      · simp [linesFrom, dropReturn, hc]
  | cons c first ih =>
    simp only [List.cons_append, linesFrom] at h ⊢
    split
    · next hc =>
      rw [if_pos hc, piecesOf, List.flatMap_cons, List.filterMap_append] at h
      exact congrArg (scanLine 0 _ ++ ·) (ih (List.append_eq_nil_iff.1 h).2)
    · next hc =>
      rw [if_neg hc] at h
      exact ih h

theorem pieces_append {first : String} (second : String)
    (h : (pieces first).filterMap Scanned.error? = []) :
    pieces (first ++ "\n" ++ second) = pieces first ++ pieces second := by
  have hlist : (first ++ "\n" ++ second).toList = first.toList ++ '\n' :: second.toList := by
    simp [String.toList_append]
  rw [pieces, textLines, linesBetween, hlist, linesFrom_append, piecesOf, List.flatMap_append]
  exact congrArg (· ++ _) (piecesOf_break h)

-- ---------------------------------------------------------------------------
-- Kinds of pieces
-- ---------------------------------------------------------------------------

/-- The kinds of tokens that stand for a piece of text. -/
def Kind.Written (k : Kind) : Prop :=
  k ≠ .endOfFile ∧ k ≠ .error

instance (k : Kind) : Decidable k.Written :=
  inferInstanceAs (Decidable (_ ∧ _))

/-- The kinds whose tokens are written in one way: marks and reserved words. -/
def Kind.Fixed (k : Kind) : Prop :=
  k ∉ [number, string, identifier, error, endOfFile]

instance (k : Kind) : Decidable k.Fixed :=
  inferInstanceAs (Decidable (_ ∉ _))

theorem Kind.ofPair?_fixed {c d : Char} {k : Kind} (h : ofPair? c d = some k) : k.Fixed := by
  unfold ofPair? at h
  split at h <;> cases h <;> decide

theorem Kind.ofChar?_fixed {c : Char} {k : Kind} (h : ofChar? c = some k) : k.Fixed := by
  unfold ofChar? at h
  split at h <;> cases h <;> decide

theorem Kind.keyword?_fixed {word : String} {k : Kind} (h : keyword? word = some k) :
    k.Fixed := by
  unfold keyword? at h
  split at h <;> cases h <;> decide

theorem Kind.Fixed.written {k : Kind} (h : k.Fixed) : k.Written := by
  constructor <;>
    · rintro rfl
      exact h (by decide)

/-- A piece that is no error is no error token either, and no piece ends the token list. -/
def Scanned.Proper : Scanned → Prop
  | .ok t => t.kind.Written
  | .error _ => True

namespace Scanned.Proper

variable {p : Scanned}

theorem kind_ne (h : p.Proper) : p.token.kind ≠ .endOfFile := by
  cases p with
  | ok t => exact h.1
  | error e => nofun

end Scanned.Proper

theorem scanWhole?_proper {word : List Char} {line : Nat} {t : Token}
    (h : scanWhole? word line = some t) : t.kind.Written := by
  unfold scanWhole? at h
  dsimp only at h
  split at h
  · next hk =>
    cases h
    exact (Kind.keyword?_fixed hk).written
  · obtain ⟨x, -, rfl⟩ := Option.map_eq_some_iff.1 h
    exact ⟨nofun, nofun⟩

theorem scanPart?_proper {word : List Char} {line : Nat} : ∀ p ∈ scanPart? word line, p.Proper := by
  intro p hp
  unfold scanPart? at hp
  split at hp
  · cases hp
  · obtain rfl := List.mem_singleton.1 hp
    unfold scanPart
    split
    · next h => exact scanWhole?_proper h
    · split
      · exact ⟨nofun, nofun⟩
      · trivial

theorem scanParts_proper {parts : List (List Char)} {line : Nat} :
    ∀ p ∈ scanParts parts line, p.Proper := by
  intro p hp
  cases parts with
  | nil => cases hp
  | cons part parts =>
    rcases List.mem_append.1 hp with hp | hp
    · exact scanPart?_proper p hp
    · obtain ⟨part, -, hp⟩ := List.mem_flatMap.1 hp
      rcases List.mem_cons.1 hp with rfl | hp
      · exact ⟨nofun, nofun⟩
      · exact scanPart?_proper p hp

theorem Fragment.markOrWord_proper {c : Char} {cs : List Char} {k : Kind}
    (h : (markOrWord c cs).1.shape = .mark k) : k.Written := by
  unfold markOrWord at h
  split at h
  · cases h
  · split at h
    · next hk =>
      cases h
      obtain ⟨d, -, hk⟩ := Option.bind_eq_some_iff.1 hk
      exact (Kind.ofPair?_fixed hk).written
    · split at h
      · next hk =>
        cases h
        exact (Kind.ofChar?_fixed hk).written
      · cases h

theorem Fragment.first_proper {c : Char} {cs : List Char} {k : Kind}
    (h : (first c cs).1.shape = .mark k) : k.Written := by
  unfold first at h
  split at h
  · cases h
  · split at h
    · split at h <;> cases h
    · split at h
      · cases h
      · exact markOrWord_proper h

theorem Fragment.scan_proper {f : Fragment} {line : Nat}
    (h : ∀ k, f.shape = .mark k → k.Written) : ∀ p ∈ f.scan line, p.Proper := by
  intro p hp
  obtain ⟨shape, text⟩ := f
  cases shape with
  | blank | comment => cases hp
  | closed =>
    obtain rfl := List.mem_singleton.1 hp
    exact ⟨nofun, nofun⟩
  | unclosed | stray =>
    obtain rfl := List.mem_singleton.1 hp
    trivial
  | mark kind =>
    obtain rfl := List.mem_singleton.1 hp
    exact h kind rfl
  | word =>
    have hp : p ∈ scanWord text line := hp
    unfold scanWord at hp
    split at hp
    · next ht =>
      obtain rfl := List.mem_singleton.1 hp
      exact scanWhole?_proper ht
    · exact scanParts_proper p hp

theorem scanLine_proper (line : Nat) (cs : List Char) : ∀ p ∈ scanLine line cs, p.Proper := by
  induction cs using fragments_induction with
  | nil => simp [scanLine]
  | cons c cs ih =>
    intro p hp
    rw [scanLine_cons, List.mem_append] at hp
    exact hp.elim (Fragment.scan_proper (fun _ => Fragment.first_proper) p) (ih p)

theorem scanLines_proper (line : Nat) (lines : List (List Char)) :
    ∀ p ∈ scanLines line lines, p.Proper := by
  induction lines generalizing line with
  | nil => exact nofun
  | cons cs rest ih => exact List.forall_mem_append.2 ⟨scanLine_proper _ cs, ih (line + 1)⟩

theorem pieces_proper (source : String) : ∀ p ∈ pieces source, p.Proper := by
  intro p hp
  obtain ⟨cs, -, hp⟩ := List.mem_flatMap.1 hp
  exact scanLine_proper 0 cs p hp

end Lox
