-- SUMMARY: What one turn of the loop over declarations does, and induction over the turns.
import Lox.Parse.Program
import Lox.Proofs.Parse.Lookahead
import Lox.Proofs.Parse.Skip
import Lox.Proofs.Parse.Statements
import Lox.Proofs.Parse.StatementsComplete

/-!
## Turns

A turn takes one declaration off a token list: with a derivation, or with an error and the tokens
that recovery skips after it. A turn depends on the tokens it takes and on the one after them, so
what a program parses to is put together from its turns.
-/

namespace Lox

open Grammar

/-- From `c` on, the loop takes the tokens `w` and comes to `d` with a statement or an error. -/
inductive Turn (c : Cursor) : Except ParseError Stmt → List Token → Cursor → Prop where
  | statement {s w d} (h : parseDeclaration c = (.ok s, d)) (hw : c.Takes w d)
      (hs : Declaration w d.current.kind s) : Turn c (.ok s) w d
  | error {e w m x d} (h : parseDeclaration c = (.error e, m)) (hw : c.Takes w m)
      (hb : BrokenDeclaration w) (hfound : e.found ∈ w ∨ e.found = m.current)
      (hx : Skipped c w x d) : Turn c (.error e) x d

/-- One more outcome in front. -/
def Parsed.cons : Except ParseError Stmt → Parsed → Parsed
  | .ok s, p => { p with statements := s :: p.statements }
  | .error e, p => { p with errors := e :: p.errors }

variable {c c' d d' m : Cursor} {w x u v ts : List Token} {r : Except ParseError Stmt}
  {s : Stmt} {e : ParseError}

-- ---------------------------------------------------------------------------
-- One declaration
-- ---------------------------------------------------------------------------

/-- The budget is enough for a declaration, and more changes nothing. -/
theorem declaration_of_budget_le {n : Nat} (h : c.budget ≤ n) :
    Parse.declaration n c = some (parseDeclaration c) := by
  have hbudget : Parse.declaration c.budget c = some (parseDeclaration c) := by
    have hends := (Parse.statementsEnd c.budget).declaration c (by unfold Cursor.budget; omega)
    rw [parseDeclaration]
    cases hc : Parse.declaration c.budget c with
    | none => exact absurd hc hends.ne_none
    | some result => rfl
  obtain ⟨w, hw, hsame⟩ := (Parse.statementsRefine h).declaration c _ _ hbudget
  exact hsame c _ hw rfl

theorem parseDeclaration_ok (h : parseDeclaration c = (.ok s, d)) :
    ∃ w, c.Takes w d ∧ Declaration w d.current.kind s := by
  have hc := declaration_of_budget_le (Nat.le_refl c.budget)
  rw [h] at hc
  rcases (Parse.statementsEnd c.budget).declaration c (by unfold Cursor.budget; omega) with
    ⟨s', w, d', hc', hw, hs⟩ | ⟨e, w, d', hc', -⟩
  · cases hc.symm.trans hc'
    exact ⟨w, hw, hs⟩
  · cases hc.symm.trans hc'

theorem parseDeclaration_error (h : parseDeclaration c = (.error e, d)) :
    ∃ w, c.Takes w d ∧ BrokenDeclaration w ∧ (e.found ∈ w ∨ e.found = d.current) := by
  have hc := declaration_of_budget_le (Nat.le_refl c.budget)
  rw [h] at hc
  rcases (Parse.statementsEnd c.budget).declaration c (by unfold Cursor.budget; omega) with
    ⟨s, w, d', hc', -⟩ | ⟨e', w, d', hc', hw, hb, hfound⟩
  · cases hc.symm.trans hc'
  · cases hc.symm.trans hc'
    exact ⟨w, hw, hb, hfound⟩

theorem parseDeclaration_of_derivation (h : Declaration w d.current.kind s) (hw : c.Takes w d) :
    parseDeclaration c = (.ok s, d) := by
  obtain ⟨k, hk⟩ := Parse.declaration_yields h hw rfl
  have hc := declaration_of_budget_le (Nat.le_max_right k c.budget)
  exact Option.some.inj (hc.symm.trans (hk _ (Nat.le_max_left k c.budget)))

/-- The same tokens before the same token give the same. -/
theorem parseDeclaration_moved (h : parseDeclaration c = (r, d)) (hw : c.Takes w d)
    (hw' : c'.Takes w d') (hd : d'.current = d.current) : parseDeclaration c' = (r, d') := by
  have hc := declaration_of_budget_le (Nat.le_refl c.budget)
  rw [h] at hc
  have hle : c.budget ≤ max c.budget c'.budget := Nat.le_max_left _ _
  obtain ⟨u, hu, hsame⟩ := (Parse.statementsRefine hle).declaration c _ _ hc
  obtain rfl := hu.tokens_unique hw
  have hc' := declaration_of_budget_le (Nat.le_max_right c.budget c'.budget)
  exact Option.some.inj (hc'.symm.trans (hsame c' d' hw' hd))

/-- A declaration that ends before some token ends there in front of every rest. -/
theorem parseDeclaration_inside {t : Token} (h : parseDeclaration c = (r, m)) (hw : c.Takes w m)
    (hx : c.Takes (w ++ t :: v) d) (hx' : c'.Takes (w ++ t :: v) d') :
    ∃ m', c'.Takes w m' ∧ m'.Takes (t :: v) d' ∧ m'.current = m.current ∧
      parseDeclaration c' = (r, m') := by
  obtain ⟨k, hk, hkd⟩ := hx.split
  obtain rfl := hk.unique hw
  obtain ⟨m', hm', hmd'⟩ := hx'.split
  have hcurrent : m'.current = k.current := by rw [hkd.current_of_cons, hmd'.current_of_cons]
  exact ⟨m', hm', hmd', hcurrent, parseDeclaration_moved h hw hm' hcurrent⟩


-- ---------------------------------------------------------------------------
-- One turn
-- ---------------------------------------------------------------------------

namespace Turn

theorem takes (h : Turn c r w d) : c.Takes w d := by
  cases h with
  | statement _ hw => exact hw
  | error _ _ _ _ hx => exact hx.takes

theorem ne_nil (h : Turn c r w d) : w ≠ [] := by
  cases h with
  | statement _ _ hs => exact hs.whole.ne_nil
  | error _ _ _ _ hx => exact hx.ne_nil

theorem not_atEnd (h : Turn c r w d) : c.atEnd = false := by
  obtain ⟨t, v, rfl⟩ := List.exists_cons_of_ne_nil h.ne_nil
  have hw := h.takes
  rw [Cursor.atEnd_eq_false_iff, hw.current_of_cons]
  exact hw.no_end t (by simp)

theorem length_lt (h : Turn c r w d) : d.rest.length < c.rest.length := by
  have := h.takes.length_rest
  have := List.length_pos_iff.2 h.ne_nil
  omega

/-- After an error there is a turn with the tokens that recovery skips. -/
theorem of_error (h : parseDeclaration c = (.error e, m)) (hw : c.Takes w m)
    (hend : c.atEnd = false) : ∃ x d, Skipped c w x d ∧ Turn c (.error e) x d := by
  obtain ⟨u, hu, hb, hfound⟩ := parseDeclaration_error h
  obtain rfl := hu.tokens_unique hw
  obtain ⟨x, hx⟩ := skipDeclaration_skips hw fun hnil => by
    subst hnil
    rw [hw.current_of_nil]
    exact Cursor.atEnd_eq_false_iff.1 hend
  exact ⟨x, _, hx, .error h hw hb hfound hx⟩

/-- Before the end there is a turn. -/
theorem of_not_atEnd (h : c.atEnd = false) : ∃ r w d, Turn c r w d := by
  cases hc : parseDeclaration c with
  | mk result m =>
    cases result with
    | ok s =>
      obtain ⟨w, hw, hs⟩ := parseDeclaration_ok hc
      exact ⟨_, w, m, .statement hc hw hs⟩
    | error e =>
      obtain ⟨w, hw, -⟩ := parseDeclaration_error hc
      obtain ⟨x, d, -, hturn⟩ := of_error hc hw h
      exact ⟨_, x, d, hturn⟩

/-- A place on the way sees the same token wherever the turn is taken. -/
theorem current_moved (hv : m.Takes v d) (h' : c'.Takes (u ++ v) d')
    (hd : d'.current = d.current) :
    ∃ m', c'.Takes u m' ∧ m'.Takes v d' ∧ m'.current = m.current := by
  obtain ⟨m', hu', hv'⟩ := h'.split
  refine ⟨m', hu', hv', ?_⟩
  cases v with
  | nil => rw [← hv.current_of_nil, ← hv'.current_of_nil, hd]
  | cons t v => rw [hv.current_of_cons, hv'.current_of_cons]

theorem moved (h : Turn c r w d) (hw' : c'.Takes w d') (hd : d'.current = d.current) :
    Turn c' r w d' := by
  cases h with
  | statement h hw hs =>
    exact .statement (parseDeclaration_moved h hw hw' hd) hw' (hd ▸ hs)
  | @error e u m _ _ h hw hb hfound hx =>
    obtain ⟨v, rfl⟩ := hx.begins
    obtain ⟨m₁, hm₁, hv⟩ := hx.takes.split
    obtain rfl := hm₁.unique hw
    obtain ⟨m', hu', hv', hm'⟩ := current_moved hv hw' hd
    refine .error (parseDeclaration_moved h hw hu' hm') hu' hb (hm' ▸ hfound) ?_
    exact hx.moved hw' (by rw [hd])

theorem declarationsWithin_eq (h : Turn c r w d) (n : Nat) :
    declarationsWithin (n + 1) c = .cons r (declarationsWithin n d) := by
  rw [declarationsWithin, h.not_atEnd]
  cases h with
  | statement h hw hs => simp [h, Parsed.cons]
  | error h hw hb hfound hx => simp [h, Parsed.cons, hx.skipDeclaration_eq hw]

end Turn


-- ---------------------------------------------------------------------------
-- All turns
-- ---------------------------------------------------------------------------

theorem declarationsWithin_of_end (h : firstKind c.rest .endOfFile = .endOfFile) (n : Nat) :
    declarationsWithin n c = { } := by
  cases n with
  | zero => rfl
  | succ n => rw [declarationsWithin, if_pos (Cursor.atEnd_eq_true_iff.2 h)]

/-- With one turn for each token the loop comes to the end, and it does not look back. -/
theorem declarationsWithin_eq_parse {n : Nat} (c : Cursor) (h : c.rest.length ≤ n) :
    declarationsWithin n c = parse c.rest := by
  have hsame : ∀ n m c c', c.rest = c'.rest → c.rest.length ≤ n → c.rest.length ≤ m →
      declarationsWithin n c = declarationsWithin m c' := by
    intro n
    induction n with
    | zero =>
      intro m c c' hrest hn _
      have hnil : c.rest = [] := List.length_eq_zero_iff.1 (by omega)
      rw [declarationsWithin_of_end (by rw [hnil]; rfl),
        declarationsWithin_of_end (by rw [← hrest, hnil]; rfl)]
    | succ n ih =>
      intro m c c' hrest hn hm
      cases hend : c.atEnd with
      | true =>
        have hfirst := Cursor.atEnd_eq_true_iff.1 hend
        rw [declarationsWithin_of_end hfirst, declarationsWithin_of_end (hrest ▸ hfirst)]
      | false =>
        obtain ⟨r, w, d, hturn⟩ := Turn.of_not_atEnd hend
        have hw := hturn.takes
        have hlen := hturn.length_lt
        obtain ⟨m, rfl⟩ : ∃ k, m = k + 1 := ⟨m - 1, by omega⟩
        have hw' : c'.Takes w ⟨w.reverse ++ c'.taken, d.rest⟩ :=
          ⟨hrest ▸ hw.rest_eq, rfl, hw.no_end⟩
        rw [hturn.declarationsWithin_eq, (hturn.moved hw' rfl).declarationsWithin_eq,
          ih m d ⟨w.reverse ++ c'.taken, d.rest⟩ rfl (by omega) (by omega)]
  exact hsame n _ c (.ofTokens c.rest) rfl h (Nat.le_refl _)

theorem parse_of_end (h : firstKind ts .endOfFile = .endOfFile) : parse ts = { } :=
  declarationsWithin_of_end h _

theorem Turn.parse_eq (h : Turn (.ofTokens ts) r w d) : parse ts = .cons r (parse d.rest) := by
  have hlen : d.rest.length < ts.length := h.length_lt
  obtain ⟨n, hn⟩ : ∃ n, ts.length = n + 1 := ⟨ts.length - 1, by omega⟩
  rw [parse, hn, h.declarationsWithin_eq, declarationsWithin_eq_parse d (by omega)]

/-- Induction over the turns that parse a token list. -/
theorem parse_induction {motive : List Token → Parsed → Prop}
    (finish : ∀ ts, firstKind ts .endOfFile = .endOfFile → motive ts { })
    (turn : ∀ ts r w d, Turn (.ofTokens ts) r w d → motive d.rest (parse d.rest) →
      motive ts (.cons r (parse d.rest)))
    (ts : List Token) : motive ts (parse ts) := by
  cases hend : (Cursor.ofTokens ts).atEnd with
  | true =>
    have hfirst : firstKind ts .endOfFile = .endOfFile := Cursor.atEnd_eq_true_iff.1 hend
    rw [parse_of_end hfirst]
    exact finish ts hfirst
  | false =>
    obtain ⟨r, w, d, hturn⟩ := Turn.of_not_atEnd hend
    have hlen : d.rest.length < ts.length := hturn.length_lt
    rw [hturn.parse_eq]
    exact turn ts r w d hturn (parse_induction finish turn d.rest)
termination_by ts.length

end Lox
