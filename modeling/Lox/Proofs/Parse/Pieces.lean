-- SUMMARY: The tokens of a program split into pieces, one for each statement and each error.
import Lox.Proofs.Parse.Correct

/-!
## Pieces

Parsing splits the tokens before the end into one piece for each turn. A piece makes sense by
itself: its tokens alone give the same statement, or one error.
-/

namespace Lox

open Grammar

/-- Some tokens in a row, and what they were parsed to. -/
structure Piece where
  range : List Token
  result : Except ParseError Stmt

def Piece.statement? (p : Piece) : Option Stmt :=
  match p.result with
  | .ok s => some s
  | .error _ => none

def Piece.error? (p : Piece) : Option ParseError :=
  match p.result with
  | .ok _ => none
  | .error e => some e

/-- What holds of every piece, where `next` is the token after it. -/
structure Piece.Sound (p : Piece) (next : Token) : Prop where
  ne_nil : p.range ≠ []
  no_end : ∀ t ∈ p.range, t.kind ≠ .endOfFile
  statement : ∀ s, p.result = .ok s → (∀ t ∈ p.range, t.kind ≠ .error) ∧
    ∀ last : Token, last.kind = .endOfFile → parse (p.range ++ [last]) = ⟨[s], []⟩
  error : ∀ e, p.result = .error e → (e.found ∈ p.range ∨ e.found = next) ∧
    ∀ last : Token, last.kind = .endOfFile → ∃ e', parse (p.range ++ [last]) = ⟨[], [e']⟩

/-- The ranges of the pieces are the tokens before the end, in order. -/
inductive Splits : List Token → List Piece → Prop where
  | nil {ts} (h : firstKind ts .endOfFile = .endOfFile) : Splits ts []
  | cons {p rest ps} (h : p.Sound (Cursor.ofTokens rest).current) (hrest : Splits rest ps) :
      Splits (p.range ++ rest) (p :: ps)

variable {c d d' m : Cursor} {w x ts : List Token} {ps : List Piece} {s : Stmt} {e : ParseError}
  {last : Token}

-- ---------------------------------------------------------------------------
-- One piece
-- ---------------------------------------------------------------------------

theorem Turn.statement_alone (h : Turn c (.ok s) w d) (hlast : last.kind = .endOfFile) :
    parse (w ++ [last]) = ⟨[s], []⟩ := by
  cases h with
  | statement _ hw hs =>
    apply parse_of_program
    have hbefore : beforeEnd (w ++ [last]) = w ++ [] := by
      rw [beforeEnd_append hw.no_end]
      simp [beforeEnd, hlast]
    rw [hbefore]
    exact .cons (hs.before (by simp [firstKind])) .nil

/-- A declaration that fails, fails also in front of the end, and at the same place. If it could end
there, it would have ended with the token that was after it. -/
theorem Turn.error_alone {c' : Cursor} (h : Turn c (.error e) x d) (hx' : c'.Takes x d')
    (hd' : d'.current.kind = .endOfFile) : ∃ e', Turn c' (.error e') x d' := by
  cases h with
  | @error _ w m _ _ hc hw hb hfound hskip =>
    have hx := hskip.takes
    have hskip' : Skipped c' w x d' :=
      ⟨hx', hskip.ne_nil, hskip.begins, hskip.goes_on, .inl hd'⟩
    obtain ⟨v, rfl⟩ := hskip.begins
    cases v with
    | cons t v =>
      obtain ⟨m', hm', -, hcurrent, hc'⟩ := parseDeclaration_inside hc hw hx hx'
      exact ⟨e, .error hc' hm' hb (hcurrent ▸ hfound) hskip'⟩
    | nil =>
      rw [List.append_nil] at hx hx' hskip' ⊢
      cases hc' : parseDeclaration c' with
      | mk result k =>
        cases result with
        | ok s =>
          obtain ⟨u, hu, hs⟩ := parseDeclaration_ok hc'
          rcases hx'.before_end hd' hu with rfl | ⟨t, v, rfl⟩
          · exact absurd hs.whole.terminated hb.cut.not_terminated
          · obtain ⟨m', -, -, -, hm'⟩ := parseDeclaration_inside hc' hu hx' hx
            cases hc.symm.trans hm'
        | error e' =>
          obtain ⟨u, hu, hbu, hfound'⟩ := parseDeclaration_error hc'
          rcases hx'.before_end hd' hu with rfl | ⟨t, v, rfl⟩
          · exact ⟨e', .error hc' hu hb hfound' hskip'⟩
          · obtain ⟨m', hm', hmd, -, hm''⟩ := parseDeclaration_inside hc' hu hx' hx
            cases hc.symm.trans hm''
            have hlen := hmd.length_rest
            rw [hx.unique hw, List.length_cons] at hlen
            omega

/-- The error of a turn lies among its tokens or right behind them. -/
theorem Turn.found (h : Turn c (.error e) x d) : e.found ∈ x ∨ e.found = d.current := by
  cases h with
  | @error _ w m _ _ _ hw _ hfound hskip =>
    have hx := hskip.takes
    obtain ⟨v, rfl⟩ := hskip.begins
    obtain ⟨k, hk, hkd⟩ := hx.split
    obtain rfl := hk.unique hw
    rcases hfound with hfound | hfound
    · exact .inl (List.mem_append_left v hfound)
    · cases v with
      | nil => rw [hkd.current_of_nil]; exact .inr hfound
      | cons t v =>
        rw [hkd.current_of_cons] at hfound
        exact .inl (by simp [hfound])

theorem Turn.sound {r : Except ParseError Stmt} (h : Turn (.ofTokens ts) r w d) :
    Piece.Sound ⟨w, r⟩ d.current where
  ne_nil := h.ne_nil
  no_end := h.takes.no_end
  statement := by
    rintro s rfl
    refine ⟨?_, fun last hlast => h.statement_alone hlast⟩
    cases h with
    | statement _ _ hs => exact fun t ht => (hs.whole.proper t ht).1
  error := by
    rintro e rfl
    refine ⟨h.found, fun last hlast => ?_⟩
    have hw : (Cursor.ofTokens (w ++ [last])).Takes w ⟨w.reverse ++ [], [last]⟩ :=
      .of_append [] w [last] h.takes.no_end
    obtain ⟨e', he'⟩ := h.error_alone hw hlast
    have hend : parse [last] = { } := parse_of_end hlast
    refine ⟨e', ?_⟩
    rw [he'.parse_eq, hend]
    rfl

-- ---------------------------------------------------------------------------
-- All pieces
-- ---------------------------------------------------------------------------

theorem Splits.flatMap_range (h : Splits ts ps) : ps.flatMap Piece.range = beforeEnd ts := by
  induction h with
  | @nil ts h =>
    rw [beforeEnd_of_end h]
    rfl
  | cons h _ ih => rw [List.flatMap_cons, beforeEnd_append h.no_end, ih]

theorem Splits.sound (h : Splits ts ps) : ∀ p ∈ ps, ∃ next, p.Sound next := by
  induction h with
  | nil => simp
  | cons h _ ih => exact List.forall_mem_cons.2 ⟨⟨_, h⟩, ih⟩

theorem length_le_flatMap_range (h : ∀ p ∈ ps, p.range ≠ []) :
    ps.length ≤ (ps.flatMap Piece.range).length := by
  induction ps with
  | nil => simp
  | cons p ps ih =>
    obtain ⟨hp, hps⟩ := List.forall_mem_cons.1 h
    have := ih hps
    have := List.length_pos_iff.2 hp
    rw [List.flatMap_cons, List.length_cons, List.length_append]
    omega

theorem length_statements_add_errors (ps : List Piece) :
    (ps.filterMap Piece.statement?).length + (ps.filterMap Piece.error?).length = ps.length := by
  induction ps with
  | nil => rfl
  | cons p ps ih =>
    obtain ⟨range, result⟩ := p
    cases result <;> simp only [List.filterMap_cons, Piece.statement?, Piece.error?,
      List.length_cons] <;> omega

theorem parse_splits (ts : List Token) : ∃ ps, Splits ts ps ∧
    (parse ts).statements = ps.filterMap Piece.statement? ∧
    (parse ts).errors = ps.filterMap Piece.error? := by
  induction ts using parse_induction with
  | finish ts hend => exact ⟨[], .nil hend, rfl, rfl⟩
  | turn ts r w d hturn ih =>
    obtain ⟨ps, hps, hstatements, herrors⟩ := ih
    have hts : ts = w ++ d.rest := hturn.takes.rest_eq
    have hcurrent : (Cursor.ofTokens d.rest).current = d.current := rfl
    refine ⟨⟨w, r⟩ :: ps, ?_, ?_, ?_⟩
    · rw [hts]
      exact .cons (p := ⟨w, r⟩) (hcurrent ▸ hturn.sound) hps
    · cases r <;> simp [Parsed.cons, Piece.statement?, hstatements, List.filterMap_cons]
    · cases r <;> simp [Parsed.cons, Piece.error?, herrors, List.filterMap_cons]

/-- Parsing ends whatever the fuel, and accounts for every token before the end once. -/
theorem parse_accounts_for_every_token (ts : List Token) :
    (∀ c n, c.budget ≤ n → Parse.declaration n c = some (parseDeclaration c)) ∧
    (∀ n, ts.length ≤ n → declarationsWithin n (.ofTokens ts) = parse ts) ∧
    (∃ ps, Splits ts ps ∧ ps.flatMap Piece.range = beforeEnd ts ∧
      (parse ts).statements = ps.filterMap Piece.statement? ∧
      (parse ts).errors = ps.filterMap Piece.error?) ∧
    (parse ts).statements.length + (parse ts).errors.length ≤ (beforeEnd ts).length ∧
    ((∃ t ∈ beforeEnd ts, t.kind = .error) → (parse ts).errors ≠ []) := by
  obtain ⟨ps, hps, hstatements, herrors⟩ := parse_splits ts
  have hranges := hps.flatMap_range
  refine ⟨fun c n => declaration_of_budget_le, fun n hn => declarationsWithin_eq_parse _ hn,
    ⟨ps, hps, hranges, hstatements, herrors⟩, ?_, ?_⟩
  · rw [hstatements, herrors, length_statements_add_errors, ← hranges]
    refine length_le_flatMap_range fun p hp => ?_
    obtain ⟨next, hnext⟩ := hps.sound p hp
    exact hnext.ne_nil
  · rintro ⟨t, ht, hkind⟩ hnone
    rw [← hranges] at ht
    obtain ⟨p, hp, htp⟩ := List.mem_flatMap.1 ht
    obtain ⟨next, hnext⟩ := hps.sound p hp
    cases hresult : p.result with
    | ok s => exact (hnext.statement s hresult).1 t htp hkind
    | error e =>
      have hmem : e ∈ (parse ts).errors := by
        rw [herrors, List.mem_filterMap]
        exact ⟨p, hp, by simp [Piece.error?, hresult]⟩
      rw [hnone] at hmem
      cases hmem

end Lox
