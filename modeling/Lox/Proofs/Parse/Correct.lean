-- SUMMARY: The parser accepts what the grammar derives, with the tree that the grammar assigns.
import Lox.Proofs.Parse.Turns

/-!
## Correctness

A token list is parsed without errors exactly if the tokens before its end are a program, and its
statements are the tree of that program. So no tokens have two trees.
-/

namespace Lox

open Grammar

variable {ts w rest : List Token} {program program' : List Stmt}

/-- The tokens of a turn are the first ones before the end. -/
theorem Turn.beforeEnd_eq {r : Except ParseError Stmt} {d : Cursor}
    (h : Turn (.ofTokens ts) r w d) : beforeEnd ts = w ++ beforeEnd d.rest := by
  have hw := h.takes
  have hts : ts = w ++ d.rest := hw.rest_eq
  rw [hts, beforeEnd_append hw.no_end]

theorem program_of_parse (ts : List Token) :
    (parse ts).errors = [] → Program (beforeEnd ts) (parse ts).statements := by
  induction ts using parse_induction with
  | finish ts hend =>
    intro _
    rw [beforeEnd_of_end hend]
    exact .nil
  | turn ts r w d hturn ih =>
    intro herrors
    rw [hturn.beforeEnd_eq]
    cases hturn with
    | statement _ _ hs =>
      refine .cons ?_ (ih herrors)
      rwa [firstKind_beforeEnd, ← Cursor.current_kind]
    | error => cases herrors

/-- Derivable declarations are taken one after the other. -/
theorem parse_of_declarations {next : Kind} (h : Declarations w next program)
    (hnext : next = firstKind rest .endOfFile) :
    parse (w ++ rest) =
      ⟨program ++ (parse rest).statements, (parse rest).errors⟩ := by
  induction program generalizing w with
  | nil =>
    cases h with
    | nil => rfl
  | cons s program ih =>
    cases h with
    | @cons w v _ _ _ hs hv =>
      have hend : ∀ t ∈ w, t.kind ≠ .endOfFile := fun t ht => (hs.whole.proper t ht).2
      rw [List.append_assoc]
      have hw : (Cursor.ofTokens (w ++ (v ++ rest))).Takes w ⟨w.reverse ++ [], v ++ rest⟩ :=
        .of_append [] w (v ++ rest) hend
      have hs' : Declaration w (Cursor.current ⟨w.reverse ++ [], v ++ rest⟩).kind s := by
        rwa [Cursor.current_kind, firstKind_append, ← hnext]
      rw [(Turn.statement (parseDeclaration_of_derivation hs' hw) hw hs').parse_eq, ih hv]
      rfl

theorem parse_of_program (h : Program (beforeEnd ts) program) : parse ts = ⟨program, []⟩ := by
  obtain ⟨rest, hts, hend⟩ := beforeEnd_eq_append ts
  have hparse := parse_of_declarations h hend.symm
  rw [← hts, parse_of_end hend] at hparse
  simpa using hparse

/-- The grammar is not ambiguous. -/
theorem Grammar.Program.unique (h : Program w program) (h' : Program w program') :
    program = program' := by
  have hw : beforeEnd w = w := by
    simpa [beforeEnd] using beforeEnd_append (fun t ht => (h.proper t ht).2) []
  have hparse := parse_of_program (hw.symm ▸ h)
  rw [parse_of_program (hw.symm ▸ h')] at hparse
  cases hparse
  rfl

/-- The errors decide whether there is a tree, and the statements are the tree. -/
theorem parse_accepts_iff (ts : List Token) :
    ((parse ts).errors = [] ↔ ∃ program, Program (beforeEnd ts) program) ∧
      ∀ program, Program (beforeEnd ts) program ↔
        (parse ts).errors = [] ∧ (parse ts).statements = program := by
  have hiff : ∀ program, Program (beforeEnd ts) program ↔
      (parse ts).errors = [] ∧ (parse ts).statements = program := by
    intro program
    constructor
    · intro h
      rw [parse_of_program h]
      exact ⟨rfl, rfl⟩
    · rintro ⟨herrors, rfl⟩
      exact program_of_parse ts herrors
  refine ⟨⟨fun herrors => ⟨_, program_of_parse ts herrors⟩, ?_⟩, hiff⟩
  rintro ⟨program, h⟩
  exact ((hiff program).1 h).1

-- Parentheses leave no trace in the tree, so `(a) = nil;` is an assignment.
example : parse [⟨.leftParen, "(", 1, none⟩, ⟨.identifier, "a", 1, none⟩,
    ⟨.rightParen, ")", 1, none⟩, ⟨.equal, "=", 1, none⟩, ⟨.kwNil, "nil", 1, none⟩,
    ⟨.semicolon, ";", 1, none⟩] = ⟨[.expr (.assign "a" (.literal .nil 1) 1) 1], []⟩ := rfl

end Lox
