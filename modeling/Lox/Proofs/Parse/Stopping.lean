-- SUMMARY: Recovery goes on to the first place where the declaration may end.
import Mathlib.Logic.Relation
import Mathlib.Order.Bounds.Defs
import Lox.Proofs.Parse.Skip

/-!
## The first place to stop

Where a declaration may end is said here of a token list and of a place in it, with the depth of the
braces counted anew for each place. Recovery counts them once, while it moves on. One turn of its
loop keeps the count right and does not pass a place where the declaration may end, so neither do
all turns together, and recovery stops at the first such place (`skipDeclaration_stops_first`).
-/

namespace Lox

-- ---------------------------------------------------------------------------
-- Places
-- ---------------------------------------------------------------------------

/-- The kind of the token at a place. Behind the last token the list has ended. -/
def kindAt (ts : List Token) (p : Nat) : Kind :=
  (ts[p]?.map Token.kind).getD .endOfFile

/-- The braces that some tokens leave open. A closing brace that closes nothing is ignored. -/
def openBraces (w : List Token) : Nat :=
  w.foldl (fun n t =>
    match t.kind with
    | .leftBrace => n + 1
    | .rightBrace => n - 1
    | _ => n) 0

def tokensBetween (ts : List Token) (start p : Nat) : List Token :=
  (ts.take p).drop start

/-- The braces opened from `start` on that are open at a place. -/
def depthAt (ts : List Token) (start p : Nat) : Nat :=
  openBraces (tokensBetween ts start p)

/-- The declaration that starts at this place may hold statements. -/
def CompoundAt (ts : List Token) (start : Nat) : Prop :=
  kindAt ts start ∈ [.kwFun, .kwFor, .kwIf, .kwWhile, .leftBrace]

/-- A semicolon stands before the place, or a brace that closes the outermost open one. -/
def ClosedAt (ts : List Token) (start p : Nat) : Prop :=
  kindAt ts (p - 1) = .semicolon ∨
    kindAt ts (p - 1) = .rightBrace ∧ depthAt ts start (p - 1) = 1

/-- The declaration from `start` on may end at a place: at the end of the list, or outside braces
behind a token that closes it, unless it may hold statements and goes on with `else`. One that may
not hold statements also ends before a token that starts one. -/
def Admissible (ts : List Token) (start p : Nat) : Prop :=
  kindAt ts p = .endOfFile ∨
    depthAt ts start p = 0 ∧
      (ClosedAt ts start p ∧ ¬ (CompoundAt ts start ∧ kindAt ts p = .kwElse) ∨
        ¬ CompoundAt ts start ∧
          kindAt ts p ∈ [.kwFun, .kwVar, .kwFor, .kwIf, .kwPrint, .kwReturn, .kwWhile])

section

variable {c : Cursor} {w taken rest : List Token} {t : Token} {start : Nat} {k : Kind}

theorem Kind.startsCompound_iff :
    k.startsCompound = true ↔ k ∈ [kwFun, kwFor, kwIf, kwWhile, leftBrace] := by
  cases k <;> decide

theorem Kind.startsStatement_iff : k.startsStatement = true ↔
    k ∈ [kwFun, kwVar, kwFor, kwIf, kwPrint, kwReturn, kwWhile] := by
  cases k <;> decide

namespace Nesting

theorem depth_step (n : Nesting) (k : Kind) :
    (n.step k).depth = match k with
      | .leftBrace => n.depth + 1
      | .rightBrace => n.depth - 1
      | _ => n.depth := by
  cases k with
  | rightBrace =>
    simp only [step]
    split
    · rfl
    · show 0 = n.depth - 1
      omega
  | _ => rfl

theorem closed_step (n : Nesting) (k : Kind) :
    (n.step k).closed = true ↔ k = .rightBrace ∧ n.depth = 1 := by
  cases k with
  | rightBrace =>
    simp only [step, true_and]
    split
    · simp
    · simp only [Bool.false_eq_true, false_iff]
      omega
  | _ => simp [step]

/-- The depth that recovery keeps is the number of braces left open. -/
theorem depth_ofTokens (w : List Token) : (ofTokens w).depth = openBraces w := by
  have hfold (n : Nesting) : (w.foldl (fun n t => n.step t.kind) n).depth =
      w.foldl (fun n t =>
        match t.kind with
        | .leftBrace => n + 1
        | .rightBrace => n - 1
        | _ => n) n.depth := by
    induction w generalizing n with
    | nil => rfl
    | cons t w ih => rw [List.foldl_cons, List.foldl_cons, ih, depth_step]
  exact hfold { }

end Nesting

namespace Cursor

theorem kindAt_position (c : Cursor) : kindAt c.tokens c.position = c.current.kind := by
  obtain ⟨taken, rest⟩ := c
  cases rest with
  | nil => simp [kindAt, tokens, position, current, Token.endOfFile]
  | cons t rest => simp [kindAt, tokens, position, current]

theorem tokensBetween_position (c : Cursor) (start : Nat) :
    tokensBetween c.tokens start c.position = c.takenSince start := by
  simp [tokensBetween, tokens, position, takenSince]

/-- The token that was taken last, and the tokens from `start` on that were taken before it. -/
theorem taken_last (t : Token) (rest : List Token) (h : start ≤ taken.length) :
    kindAt (Cursor.tokens ⟨t :: taken, rest⟩) taken.length = t.kind ∧
      depthAt (Cursor.tokens ⟨t :: taken, rest⟩) start taken.length =
        openBraces (taken.reverse.drop start) ∧
      Cursor.takenSince ⟨t :: taken, rest⟩ start = taken.reverse.drop start ++ [t] := by
  refine ⟨?_, ?_, ?_⟩
  · simp [kindAt, tokens]
  · simp [depthAt, tokensBetween, tokens]
  · rw [takenSince, List.reverse_cons, List.drop_append_of_le_length (by simpa using h)]

end Cursor

end

-- ---------------------------------------------------------------------------
-- Turns
-- ---------------------------------------------------------------------------

/-- Recovery on its way. -/
structure Skipping where
  compound : Bool
  nesting : Nesting
  cursor : Cursor

namespace Skipping

/-- Where recovery starts: behind the tokens that were taken, or behind the first. -/
def first (c : Cursor) (start : Nat) : Skipping :=
  let c := if c.position = start then c.next else c
  { compound := Lox.compound (c.takenSince start)
    nesting := .ofTokens (c.takenSince start)
    cursor := c }

/-- Takes one more token, unless recovery stops here. -/
def turn? (s : Skipping) : Option Skipping :=
  match s.cursor.rest with
  | [] => none
  | t :: rest =>
    if t.kind = .endOfFile ∨
        declarationEnds s.compound s.nesting s.cursor.taken.head? t.kind = true then
      none
    else
      some { s with nesting := s.nesting.step t.kind, cursor := ⟨t :: s.cursor.taken, rest⟩ }

/-- Some turns of recovery lead from one to the other. -/
def Reaches : Skipping → Skipping → Prop :=
  Relation.ReflTransGen fun s s' => s.turn? = some s'

/-- Recovery takes turns until there is none to take. -/
theorem skipFrom_reaches (s : Skipping) :
    ∃ last, s.Reaches last ∧ last.turn? = none ∧
      last.cursor = skipFrom s.compound s.nesting s.cursor.taken s.cursor.rest := by
  obtain ⟨compound, nesting, taken, rest⟩ := s
  induction rest generalizing nesting taken with
  | nil => exact ⟨_, .refl, rfl, rfl⟩
  | cons t rest ih =>
    dsimp only
    rw [skipFrom]
    split
    · next h => exact ⟨_, .refl, if_pos h, rfl⟩
    · next h =>
      obtain ⟨last, hreach, hlast, hcursor⟩ := ih (nesting.step t.kind) (t :: taken)
      exact ⟨last, .head (if_neg h) hreach, hlast, hcursor⟩

theorem skipDeclaration_eq (c : Cursor) (start : Nat) :
    c.skipDeclaration start = skipFrom (first c start).compound (first c start).nesting
      (first c start).cursor.taken (first c start).cursor.rest := rfl

/-- On its way from the place `from` through the tokens, recovery knows how deep it is, and has
passed no place where the declaration may end. -/
structure OnTrack (ts : List Token) (start origin : Nat) (s : Skipping) : Prop where
  tokens : s.cursor.tokens = ts
  begun : start < s.cursor.position
  compound : s.compound = true ↔ CompoundAt ts start
  nesting : s.nesting = .ofTokens (tokensBetween ts start s.cursor.position)
  origin_le : origin ≤ s.cursor.position
  passed : ∀ p, origin ≤ p → p < s.cursor.position → ¬ Admissible ts start p

namespace OnTrack

variable {ts : List Token} {start origin : Nat} {s s' : Skipping}

theorem depth (h : s.OnTrack ts start origin) :
    s.nesting.depth = depthAt ts start s.cursor.position := by
  rw [h.nesting, Nesting.depth_ofTokens]
  rfl

/-- What recovery notes of the last token is what closes a declaration. -/
theorem closed_iff (h : s.OnTrack ts start origin) :
    (s.nesting.closed || s.cursor.taken.head?.any fun t => t.kind == .semicolon) = true ↔
      ClosedAt ts start s.cursor.position := by
  obtain ⟨compound, nesting, taken, rest⟩ := s
  cases taken with
  | nil => exact absurd h.begun (Nat.not_lt_zero start)
  | cons t taken =>
    obtain ⟨hkind, hdepth, htaken⟩ :=
      Cursor.taken_last t rest (Nat.le_of_lt_succ h.begun)
    have hposition : Cursor.position ⟨t :: taken, rest⟩ - 1 = taken.length := rfl
    have hnesting := h.nesting
    rw [← h.tokens, Cursor.tokensBetween_position, htaken, Nesting.ofTokens_concat] at hnesting
    rw [ClosedAt, hposition, ← h.tokens, hkind, hdepth, ← Nesting.depth_ofTokens,
      ← Nesting.closed_step, ← hnesting]
    simp only [Bool.or_eq_true, List.head?_cons, Option.any_some, beq_iff_eq]
    exact or_comm

/-- Recovery stops exactly where the declaration may end. -/
theorem turn?_eq_none_iff (h : s.OnTrack ts start origin) :
    s.turn? = none ↔ Admissible ts start s.cursor.position := by
  have hkind : kindAt ts s.cursor.position = s.cursor.current.kind :=
    h.tokens ▸ s.cursor.kindAt_position
  have hends (k : Kind) : declarationEnds s.compound s.nesting s.cursor.taken.head? k = true ↔
      depthAt ts start s.cursor.position = 0 ∧
        (ClosedAt ts start s.cursor.position ∧ ¬ (CompoundAt ts start ∧ k = .kwElse) ∨
          ¬ CompoundAt ts start ∧
            k ∈ [.kwFun, .kwVar, .kwFor, .kwIf, .kwPrint, .kwReturn, .kwWhile]) := by
    rw [← h.depth, ← h.closed_iff, ← h.compound, ← Kind.startsStatement_iff]
    simp only [declarationEnds]
    cases s.compound <;> simp
  unfold Admissible turn?
  rw [hkind, ← hends]
  cases hrest : s.cursor.rest with
  | nil => simp [Cursor.current, hrest, Token.endOfFile]
  | cons t rest =>
    simp only [ite_eq_left_iff, reduceCtorEq, imp_false, Decidable.not_not, Cursor.current, hrest,
      List.head?_cons, Option.getD_some]

theorem turn (h : s.OnTrack ts start origin) (hs : s.turn? = some s') :
    s'.OnTrack ts start origin := by
  have hstays : ¬ Admissible ts start s.cursor.position := by
    rw [← h.turn?_eq_none_iff, hs]
    nofun
  obtain ⟨compound, nesting, taken, rest⟩ := s
  cases rest with
  | nil => cases hs
  | cons t rest =>
    obtain rfl : ⟨compound, nesting.step t.kind, t :: taken, rest⟩ = s' := by
      unfold turn? at hs
      dsimp only at hs
      split at hs
      · cases hs
      · exact Option.some.inj hs
    have htokens : Cursor.tokens ⟨t :: taken, rest⟩ = ts := by
      rw [← h.tokens]
      simp [Cursor.tokens]
    obtain ⟨-, -, htaken⟩ := Cursor.taken_last t rest (Nat.le_of_lt h.begun)
    have hnesting : nesting = .ofTokens (taken.reverse.drop start) := by
      have hnesting := h.nesting
      rwa [← h.tokens, Cursor.tokensBetween_position] at hnesting
    refine ⟨htokens, Nat.lt_succ_of_lt h.begun, h.compound, ?_, Nat.le_succ_of_le h.origin_le, ?_⟩
    · rw [← htokens, Cursor.tokensBetween_position, htaken, Nesting.ofTokens_concat, ← hnesting]
    · intro p hp hlt
      rcases Nat.lt_succ_iff_lt_or_eq.1 hlt with hlt | rfl
      · exact h.passed p hp hlt
      · exact hstays

theorem reaches (h : s.OnTrack ts start origin) (hs : s.Reaches s') :
    s'.OnTrack ts start origin := by
  induction hs with
  | refl => exact h
  | tail _ hturn ih => exact ih.turn hturn

end OnTrack

theorem compound_takenSince {c : Cursor} {start : Nat} (h : start < c.position) :
    Lox.compound (c.takenSince start) = true ↔ CompoundAt c.tokens start := by
  have hlength : start < c.taken.reverse.length := by simpa [Cursor.position] using h
  have hhead : (c.takenSince start).head? = c.tokens[start]? := by
    rw [Cursor.takenSince, List.head?_drop, Cursor.tokens, List.getElem?_append_left hlength]
  have hsome : c.tokens[start]? = some c.taken.reverse[start] := by
    rw [Cursor.tokens, List.getElem?_append_left hlength, List.getElem?_eq_getElem hlength]
  simp only [Lox.compound, CompoundAt, kindAt, hhead, hsome, Option.map_some, Option.getD_some,
    Kind.startsCompound_iff]

/-- Recovery starts on track, at the first place where it may stop. -/
theorem onTrack_first {c : Cursor} {start : Nat} (hstart : start ≤ c.position)
    (hopen : kindAt c.tokens start ≠ .endOfFile) :
    (first c start).OnTrack c.tokens start (max c.position (start + 1)) ∧
      (first c start).cursor.position = max c.position (start + 1) := by
  obtain ⟨d, hd, htokens, hposition⟩ : ∃ d, (if c.position = start then c.next else c) = d ∧
      d.tokens = c.tokens ∧ d.position = max c.position (start + 1) := by
    by_cases hat : c.position = start
    · subst hat
      rw [c.kindAt_position] at hopen
      have hnext : c.next.position = c.position + 1 := by
        rw [(Cursor.next_takes hopen).position_eq]
        rfl
      exact ⟨c.next, if_pos rfl, c.tokens_next, by omega⟩
    · exact ⟨c, if_neg hat, rfl, by omega⟩
  have hfirst : first c start =
      ⟨Lox.compound (d.takenSince start), .ofTokens (d.takenSince start), d⟩ := by
    rw [first, hd]
  have hbegun : start < d.position := by omega
  rw [hfirst, ← htokens, ← hposition]
  refine ⟨⟨rfl, hbegun, compound_takenSince hbegun, ?_, Nat.le_refl _, ?_⟩, rfl⟩
  · rw [Cursor.tokensBetween_position]
  · intro p hp hlt
    exact absurd hlt (Nat.not_lt.2 hp)

end Skipping

open Skipping

/-- From behind the first token on, recovery goes to the first place where the declaration may end.
On its way it always knows how many braces are open. -/
theorem skipDeclaration_stops_first {c : Cursor} {start : Nat} (hstart : start ≤ c.position)
    (hopen : kindAt c.tokens start ≠ .endOfFile) :
    (c.skipDeclaration start).tokens = c.tokens ∧
    IsLeast {p | max c.position (start + 1) ≤ p ∧ Admissible c.tokens start p}
      (c.skipDeclaration start).position ∧
    (∃ last, (first c start).Reaches last ∧ last.turn? = none ∧
      last.cursor = c.skipDeclaration start) ∧
    ∀ s, (first c start).Reaches s →
      s.nesting = .ofTokens (tokensBetween c.tokens start s.cursor.position) ∧
        s.nesting.depth = depthAt c.tokens start s.cursor.position := by
  obtain ⟨htrack, -⟩ := onTrack_first hstart hopen
  obtain ⟨last, hreach, hlast, hcursor⟩ := (first c start).skipFrom_reaches
  rw [← skipDeclaration_eq] at hcursor
  have hend := htrack.reaches hreach
  have hadmissible := hend.turn?_eq_none_iff.1 hlast
  refine ⟨hcursor ▸ hend.tokens, hcursor ▸ ⟨⟨hend.origin_le, hadmissible⟩, ?_⟩,
    ⟨last, hreach, hlast, hcursor⟩, ?_⟩
  · rintro p ⟨hp, hends⟩
    exact Nat.le_of_not_lt fun hlt => hend.passed p hp hlt hends
  · intro s hs
    exact ⟨(htrack.reaches hs).nesting, (htrack.reaches hs).depth⟩

/-- An `if` with a condition that does not end: the braces behind it and the `else` belong to it. -/
theorem conditional_skipped_past_else :
    let tokens (ks : List Kind) : List Token := ks.map fun k => ⟨k, "", 1, none⟩
    let c : Cursor :=
      ⟨tokens [.identifier, .leftParen, .kwIf],
        tokens [.leftBrace, .identifier, .semicolon, .rightBrace, .kwElse, .identifier, .semicolon,
          .kwPrint, .identifier, .semicolon]⟩
    0 ≤ c.position ∧ kindAt c.tokens 0 ≠ .endOfFile ∧
      ¬ Admissible c.tokens 0 6 ∧ ¬ Admissible c.tokens 0 7 ∧ Admissible c.tokens 0 10 ∧
      (c.skipDeclaration 0).position = 10 := by
  intro tokens c
  have hopen : kindAt c.tokens 0 ≠ .endOfFile := by decide
  obtain ⟨-, ⟨⟨-, hends⟩, hfirst⟩, -, -⟩ :=
    skipDeclaration_stops_first (Nat.zero_le c.position) hopen
  have hstop : (c.skipDeclaration 0).position = 10 := rfl
  rw [hstop] at hends hfirst
  refine ⟨Nat.zero_le _, hopen, fun h => ?_, fun h => ?_, hends, hstop⟩
  · exact absurd (hfirst ⟨by decide, h⟩) (by decide)
  · exact absurd (hfirst ⟨by decide, h⟩) (by decide)

end Lox
