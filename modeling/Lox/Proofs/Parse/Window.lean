-- SUMMARY: A declaration depends on the tokens from the cursor up to the one it ends at.
import Lox.Proofs.Parse.Turns

/-!
## The window of a declaration

A cursor is a token list with a position in it. The window of a declaration reaches from the cursor
that it is read at to the token that it ends at. That token is looked at but not taken, and there is
none if the list has ended. What stands outside the window has no influence, whether the declaration
gives a statement or an error (`declaration_depends_on_window`).
-/

namespace Lox

variable {c c' d : Cursor} {w : List Token} {r : Except ParseError Stmt} {last : Nat}

namespace Cursor

-- ---------------------------------------------------------------------------
-- Positions
-- ---------------------------------------------------------------------------

/-- The position of the first token from the cursor on that ends the list, and the number of tokens
if there is none. -/
def endPosition (c : Cursor) : Nat :=
  c.position + c.rest.findIdx fun t => t.kind == .endOfFile

/-- The cursors stand at the same position, and the lists have the same tokens from there to the
position `last`. Where one of the lists has no token, the other has none either. -/
structure AgreesTo (c c' : Cursor) (last : Nat) : Prop where
  position : c'.position = c.position
  tokens : ∀ i, c.position ≤ i → i ≤ last → c'.tokens[i]? = c.tokens[i]?

theorem getElem?_tokens (c : Cursor) (i : Nat) : c.tokens[c.position + i]? = c.rest[i]? := by
  have hposition : c.taken.reverse.length = c.position := List.length_reverse
  rw [tokens, List.getElem?_append_right (by omega), hposition, Nat.add_sub_cancel_left]

theorem current_eq_getElem? (c : Cursor) : c.current = c.rest[0]?.getD (.endOfFile 0) := by
  rw [current, List.head?_eq_getElem?]

theorem Takes.tokens_eq (h : c.Takes w d) : d.tokens = c.tokens := by
  simp [tokens, h.taken_eq, h.rest_eq]

/-- No token that ends the list is taken. -/
theorem Takes.position_le_endPosition (h : c.Takes w d) : d.position ≤ c.endPosition := by
  have hw : w.findIdx (fun t => t.kind == .endOfFile) = w.length := by
    rw [List.findIdx_eq_length]
    exact fun t ht => beq_false_of_ne (h.no_end t ht)
  rw [h.position_eq, endPosition, h.rest_eq, List.findIdx_append, hw]
  simp

-- ---------------------------------------------------------------------------
-- Lists that agree
-- ---------------------------------------------------------------------------

namespace AgreesTo

theorem rest (h : c.AgreesTo c' last) {i : Nat} (hi : c.position + i ≤ last) :
    c'.rest[i]? = c.rest[i]? := by
  have htokens := h.tokens (c.position + i) (Nat.le_add_right _ _) hi
  rw [getElem?_tokens, ← h.position, getElem?_tokens] at htokens
  exact htokens

/-- What is taken from one list up to a position can be taken from the other, and the token there is
the same. -/
theorem takes (h : c.AgreesTo c' d.position) (hw : c.Takes w d) :
    ∃ d', c'.Takes w d' ∧ d'.current = d.current := by
  have hposition := hw.position_eq
  -- the rests may differ behind the position, so they are compared place by place up to it
  have htake : c'.rest.take w.length = w := by
    apply List.ext_getElem?
    intro i
    rcases Nat.lt_or_ge i w.length with hi | hi
    · rw [List.getElem?_take_of_lt hi, h.rest (by omega), hw.rest_eq, List.getElem?_append_left hi]
    · rw [List.getElem?_take_eq_none hi, List.getElem?_eq_none hi]
  refine ⟨⟨w.reverse ++ c'.taken, c'.rest.drop w.length⟩, ⟨?_, rfl, hw.no_end⟩, ?_⟩
  · calc
      c'.rest = c'.rest.take w.length ++ c'.rest.drop w.length :=
        (List.take_append_drop w.length c'.rest).symm
      _ = w ++ c'.rest.drop w.length := by rw [htake]
  · have hrest : c'.rest[w.length]? = d.rest[0]? := by
      rw [h.rest (by omega), hw.rest_eq, List.getElem?_append_right (Nat.le_refl _), Nat.sub_self]
    rw [current_eq_getElem?, current_eq_getElem?, List.getElem?_drop, Nat.add_zero, hrest]

end AgreesTo

end Cursor

-- ---------------------------------------------------------------------------
-- Declarations
-- ---------------------------------------------------------------------------

theorem parseDeclaration_takes (h : parseDeclaration c = (r, d)) : ∃ w, c.Takes w d := by
  cases r with
  | ok s =>
    obtain ⟨w, hw, -⟩ := parseDeclaration_ok h
    exact ⟨w, hw⟩
  | error e =>
    obtain ⟨w, hw, -⟩ := parseDeclaration_error h
    exact ⟨w, hw⟩

/-- A declaration ends, at a position that is not before the cursor and not behind the end of the
list. In every other list that agrees from the cursor up to this position, the position included, it
gives the same statement or the same error and ends at the same position. -/
theorem declaration_depends_on_window (c : Cursor) :
    ∃ r d, (∀ n, c.budget ≤ n → Parse.declaration n c = some (r, d)) ∧
      parseDeclaration c = (r, d) ∧
      d.tokens = c.tokens ∧ c.position ≤ d.position ∧ d.position ≤ c.endPosition ∧
      ∀ c', c.AgreesTo c' d.position →
        ∃ d', parseDeclaration c' = (r, d') ∧ d'.tokens = c'.tokens ∧ d'.position = d.position := by
  obtain ⟨r, d, h⟩ : ∃ r d, parseDeclaration c = (r, d) := ⟨_, _, rfl⟩
  obtain ⟨w, hw⟩ := parseDeclaration_takes h
  have hposition := hw.position_eq
  refine ⟨r, d, fun n hn => h ▸ declaration_of_budget_le hn, h, hw.tokens_eq, by omega,
    hw.position_le_endPosition, fun c' hagree => ?_⟩
  obtain ⟨d', hw', hcurrent⟩ := hagree.takes hw
  refine ⟨d', parseDeclaration_moved h hw hw' hcurrent, hw'.tokens_eq, ?_⟩
  rw [hw'.position_eq, hagree.position, hposition]

/-- A bad target is found at the equals sign, and the declaration ends behind the value. -/
theorem bad_target_in_other_surroundings :
    let tokens (ks : List Kind) : List Token := ks.map fun k => ⟨k, "", 1, none⟩
    let c : Cursor := ⟨tokens [.semicolon], tokens [.kwNil, .equal, .kwTrue, .semicolon]⟩
    let c' : Cursor := ⟨tokens [.leftBrace], tokens [.kwNil, .equal, .kwTrue, .semicolon, .kwElse]⟩
    c.AgreesTo c' 4 ∧
      ∃ d', parseDeclaration c' =
          (.error ⟨.invalidAssignmentTarget, ⟨.equal, "", 1, none⟩⟩, d') ∧
        d'.tokens = c'.tokens ∧ d'.position = 4 := by
  intro tokens c c'
  have hagree : c.AgreesTo c' 4 := by
    refine ⟨rfl, fun i hfirst hlast => ?_⟩
    have hfirst : 1 ≤ i := hfirst
    obtain rfl | rfl | rfl | rfl : i = 1 ∨ i = 2 ∨ i = 3 ∨ i = 4 := by omega
    all_goals rfl
  obtain ⟨r, d, -, h, -, -, -, hsame⟩ := declaration_depends_on_window c
  cases h
  exact ⟨hagree, hsame c' hagree⟩

end Lox
