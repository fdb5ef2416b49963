-- SUMMARY: The line of a statement, and the token that it comes from.
import Lox.Proofs.Grammar.Lines
import Lox.Proofs.Grammar.Spans
import Lox.Token.Scan

/-!
## Lines of statements

A statement that starts with a keyword or a brace is on the line of its first token. An expression
statement is on the line of its expression, and that is the line of one token, the root: the name,
the literal or the operator that the outermost node was read from, or the parenthesis or the dot
behind a callee. So each statement of a program, however deep it stands, is on the line of the
anchor of its tokens (`statements_on_lines_of_anchors`). An expression that is broken in front of
its root puts its statement on a later line than that of the first token.
-/

namespace Lox

open Grammar

namespace Grammar

-- ---------------------------------------------------------------------------
-- Anchors
-- ---------------------------------------------------------------------------

/-- The token that puts a statement with the tokens `w` on its line. -/
inductive Anchor : List Token → Token → Prop where
  | first {t w} (ht : startsExpression t.kind = false) : Anchor (t :: w) t
  | root {w e t} (h : Root .assignment w e t) : Anchor w t
  | statement {w e t} {semicolon : Token} (h : Root .assignment w e t)
      (hc : semicolon.kind = .semicolon) : Anchor (w ++ [semicolon]) t

/-- The statement is on the line of an anchor of the tokens. -/
def Anchored (w : List Token) (s : Stmt) : Prop :=
  ∃ t, Anchor w t ∧ s.line = t.line

theorem Anchored.first {t w s} {k : Kind} (ht : t.kind = k) (hs : s.line = t.line)
    (hk : startsExpression k = false := by decide) : Anchored (t :: w) s :=
  ⟨t, .first (ht ▸ hk), hs⟩

theorem VarDeclaration.anchored {w s} (h : VarDeclaration w s) : Anchored w s := by
  cases h with
  | assigned hs | given hs | bare hs => exact .first hs rfl

theorem ExpressionStatement.anchored {w s} (h : ExpressionStatement w s) : Anchored w s := by
  cases h with
  | mk h hc =>
    obtain ⟨t, ht⟩ := h.root
    exact ⟨t, .statement ht hc, ht.line⟩

theorem ForInitial.anchored {w : List Token} {s : Stmt} (h : ForInitial w (some s)) :
    Anchored w s := by
  cases h with
  | var h | expression h => exact h.anchored

theorem ForUpdate.anchored {w : List Token} {e : Expr} (h : ForUpdate w (Option.some e)) :
    Anchored w (.ofExpr e) := by
  cases h with
  | some h =>
    obtain ⟨t, ht⟩ := h.root
    exact ⟨t, .root ht, ht.line⟩

theorem Guard.anchored {keyword u condition line v s} (h : Guard keyword u condition line)
    (hs : s.line = line) (hk : startsExpression keyword = false := by decide) :
    Anchored (u ++ v) s := by
  cases h with
  | mk hstart => exact .first hstart hs hk

theorem FunctionHead.anchored {u name names line v s} (h : FunctionHead u name names line)
    (hs : s.line = line) : Anchored (u ++ v) s := by
  cases h with
  | mk hstart => exact .first hstart hs

theorem line_forLoop (initial : Option Stmt) (condition : Expr) (update : Option Expr)
    (body : Stmt) (line : Nat) :
    (Stmt.forLoop initial condition update body line).line = line := by
  cases initial <;> rfl

theorem Statement.anchored {w next s} (h : Statement w next s) : Anchored w s := by
  cases h with
  | expression h => exact h.anchored
  | print hs | returnNothing hs | returnValue hs | block hs => exact .first hs rfl
  | ifOnly hu | ifElse hu | whileLoop hu => exact hu.anchored rfl
  | forLoop hu _ htree =>
    obtain rfl := forTree_iff.1 htree
    cases hu with
    | mk hs => exact .first hs (line_forLoop ..)

-- ---------------------------------------------------------------------------
-- Spans
-- ---------------------------------------------------------------------------

/-- All the statements are on the lines of their anchors. -/
def AllAnchored (spans : List Span) : Prop :=
  ∀ span ∈ spans, Anchored span.range span.statement

/-- The block and the loop of a `for` are on the line of the keyword. -/
theorem ForInitial.allAnchored {i initial t w} {loop : Stmt} (hi : ForInitial i initial)
    (ht : t.kind = .kwFor) (hloop : loop.line = t.line) :
    AllAnchored (initialSpans (t :: w) i loop t.line initial ++ [⟨t :: w, loop⟩]) := by
  have hlast : Anchored (t :: w) loop := .first ht hloop
  cases initial with
  | none => exact List.forall_mem_singleton.2 hlast
  | some s =>
    exact List.forall_mem_cons.2 ⟨.first ht rfl,
      List.forall_mem_cons.2 ⟨hi.anchored, List.forall_mem_singleton.2 hlast⟩⟩

theorem ForUpdate.allAnchored {u update v body spans} (hu : ForUpdate u update)
    (hv : Anchored v body) (h : AllAnchored spans) :
    AllAnchored (roundSpans v u body spans update) := by
  cases update with
  | none => exact h
  | some e =>
    exact List.forall_mem_cons.2 ⟨hv,
      List.forall_mem_append.2 ⟨h, List.forall_mem_singleton.2 hu.anchored⟩⟩

mutual

theorem StatementSpans.anchored {w next s spans} : StatementSpans w next s spans →
    Anchored w s ∧ AllAnchored spans
  | .simple h _ => ⟨h.anchored, List.forall_mem_singleton.2 h.anchored⟩
  | .block ho h _ =>
    have hs := .first ho rfl
    ⟨hs, List.forall_mem_cons.2 ⟨hs, h.anchored⟩⟩
  | .ifOnly hu hv _ =>
    have hs := hu.anchored rfl
    ⟨hs, List.forall_mem_cons.2 ⟨hs, hv.anchored.2⟩⟩
  | .ifElse hu hv _ hw =>
    have hs := hu.anchored rfl
    ⟨hs, List.forall_mem_cons.2 ⟨hs, List.forall_mem_append.2 ⟨hv.anchored.2, hw.anchored.2⟩⟩⟩
  | .whileLoop hu hv =>
    have hs := hu.anchored rfl
    ⟨hs, List.forall_mem_cons.2 ⟨hs, hv.anchored.2⟩⟩
  | .forLoop hs _ hi _ hu _ hv hw hloop => by
    subst hw hloop
    refine ⟨.first hs (line_forLoop ..), ?_⟩
    rw [List.append_cons]
    exact List.forall_mem_append.2 ⟨hi.allAnchored hs (line_forLoop ..),
      hu.allAnchored hv.anchored.1 hv.anchored.2⟩

theorem DeclarationSpans.anchored {w next s spans} :
    DeclarationSpans w next s spans → AllAnchored spans
  | .var h => List.forall_mem_singleton.2 h.anchored
  | .function hu _ h _ => List.forall_mem_cons.2 ⟨hu.anchored rfl, h.anchored⟩
  | .statement h => h.anchored.2

theorem AllSpans.anchored {w next ss spans} : AllSpans w next ss spans → AllAnchored spans
  | .nil => List.forall_mem_nil _
  | .cons h hv => List.forall_mem_append.2 ⟨h.anchored, hv.anchored⟩

end

-- ---------------------------------------------------------------------------
-- One line for each range
-- ---------------------------------------------------------------------------

/-- Expressions are not ambiguous, because programs are not. -/
theorem Phrase.unique {w e e'} (h : Phrase .assignment w e) (h' : Phrase .assignment w e') :
    e = e' := by
  let semicolon : Token := { kind := .semicolon, lexeme := ";", line := 0 }
  have hprogram {e} (h : Phrase .assignment w e) : Program (w ++ [semicolon] ++ []) [.ofExpr e] :=
    .cons (.statement (.expression (.mk h rfl))) .nil
  cases (hprogram h).unique (hprogram h')
  rfl

theorem Root.line_unique {w e e' t t'} (h : Root .assignment w e t)
    (h' : Root .assignment w e' t') : t.line = t'.line := by
  obtain rfl := h.phrase.unique h'.phrase
  exact h.line.symm.trans h'.line

/-- Expressions have no semicolon. -/
theorem Root.ne_statement {r w v e t} {semicolon : Token} (h : Root r w e t)
    (hc : semicolon.kind = .semicolon) : w ≠ v ++ [semicolon] := by
  rintro rfl
  exact h.phrase.plain.inline.no_semicolon semicolon (by simp) hc

theorem not_startsWith {p : Kind → Bool} {t w} (ht : p t.kind = false) :
    ¬ StartsWith p (t :: w) := by
  rintro ⟨_, _, hw, hk⟩
  cases hw
  rw [ht] at hk
  cases hk

theorem Anchor.ne_nil {w t} (h : Anchor w t) : w ≠ [] := by
  cases h with
  | first | statement => simp
  | root h =>
    obtain ⟨_, _, rfl, -⟩ := h.phrase.first
    exact List.cons_ne_nil _ _

/-- The anchors of a range are all on one line. -/
theorem Anchor.line_unique {w t t'} (h : Anchor w t) (h' : Anchor w t') : t.line = t'.line := by
  cases h with
  | @first t v ht =>
    have hstart : ¬ StartsWith startsExpression (t :: v) := not_startsWith ht
    generalize hw : t :: v = w at h' hstart
    cases h' with
    | first => cases hw; rfl
    | root h' => exact absurd h'.phrase.first hstart
    | statement h' => exact absurd (h'.phrase.first.append _) hstart
  | root h =>
    generalize hw : w = u at h'
    cases h' with
    | first ht => exact absurd (hw ▸ h.phrase.first) (not_startsWith ht)
    | root h' => exact h.line_unique (hw ▸ h')
    | statement _ hc => exact absurd hw (h.ne_statement hc)
  | @statement v e t semicolon h hc =>
    generalize hw : v ++ [semicolon] = w at h'
    cases h' with
    | first ht => exact absurd (hw ▸ h.phrase.first.append _) (not_startsWith ht)
    | root h' => exact absurd hw.symm (h'.ne_statement hc)
    | statement h' =>
      obtain ⟨rfl, -⟩ := List.append_inj' hw rfl
      exact h.line_unique h'

end Grammar

/-- A piece that is parsed to a statement is a declaration. -/
theorem Piece.Sound.declaration {p : Piece} {next : Token} {s : Stmt} (h : p.Sound next)
    (hs : p.result = .ok s) : Declaration p.range .endOfFile s := by
  have hparse := (h.statement s hs).2 (.endOfFile 0) rfl
  have hprogram := program_of_parse (p.range ++ [.endOfFile 0]) (by rw [hparse])
  rw [hparse, beforeEnd_append h.no_end, beforeEnd_of_end rfl, List.append_nil] at hprogram
  generalize hrange : p.range = w at hprogram
  cases hprogram with
  | cons h hv =>
    cases hv with
    | nil =>
      rw [List.append_nil]
      exact h

/-- Every statement of a program, also inside others, is on the line of the anchor of its tokens:
on the line of its first token, unless an expression starts there. -/
theorem statements_on_lines_of_anchors (ts : List Token) :
    ∃ ps, Splits ts ps ∧ (parse ts).statements = ps.filterMap Piece.statement? ∧
      ∀ p ∈ ps, ∀ s, p.result = .ok s →
        (∃ spans, DeclarationSpans p.range .endOfFile s spans) ∧
        ∀ spans, DeclarationSpans p.range .endOfFile s spans →
          spans.map Span.statement = s.parts ∧
            ∀ span ∈ spans, ∃ first rest, span.range = first :: rest ∧
              (startsExpression first.kind = false → span.statement.line = first.line) ∧
              (∃ t, Anchor span.range t) ∧
              ∀ t, Anchor span.range t → span.statement.line = t.line := by
  obtain ⟨ps, hps, hstatements, -⟩ := parse_splits ts
  refine ⟨ps, hps, hstatements, fun p hp s hs => ?_⟩
  obtain ⟨next, hsound⟩ := hps.sound p hp
  refine ⟨(hsound.declaration hs).spans, fun spans hspans => ⟨hspans.parts, ?_⟩⟩
  intro span hspan
  obtain ⟨t, ht, hline⟩ := hspans.anchored span hspan
  have hall : ∀ t', Anchor span.range t' → span.statement.line = t'.line :=
    fun t' ht' => hline.trans (ht.line_unique ht')
  obtain ⟨first, rest, hrange⟩ := List.exists_cons_of_ne_nil ht.ne_nil
  refine ⟨first, rest, hrange, fun hfirst => hall first ?_, ⟨t, ht⟩, hall⟩
  rw [hrange]
  exact .first hfirst

/-- A sum that is broken before its operator is not on the line that it starts on. -/
theorem broken_sum_on_line_of_operator :
    let ts := (scan "a\n+ b;").tokens
    let s : Stmt := .expr (.binary .add (.var "a" 1) (.var "b" 2) 2) 2
    parse ts = ⟨[s], []⟩ ∧ (beforeEnd ts).head?.map Token.line = some 1 ∧ s.line = 2 :=
  ⟨rfl, rfl, rfl⟩

end Lox
