-- SUMMARY: The statements in a statement, each with the tokens that it is derived from.
import Lox.Proofs.Grammar.Derivation

/-!
## Spans

A derivation gives tokens to every statement that it passes, and so to every statement of the tree:
the spans of a statement are its parts with their tokens, in the order of the tree
(`DeclarationSpans.parts`). A `for` stands for more statements than are written. The loop and the
block around it have the tokens of the whole `for`; the block of the body and the update has those
of the body.
-/

namespace Lox

-- ---------------------------------------------------------------------------
-- Parts
-- ---------------------------------------------------------------------------

mutual

/-- All statements in a statement, itself first. -/
def Stmt.parts : Stmt → List Stmt
  | .expr value line => [.expr value line]
  | .print value line => [.print value line]
  | .var name initial line => [.var name initial line]
  | .block body line => .block body line :: Stmt.partsAll body
  | .branch condition yes no line =>
    .branch condition yes no line :: (yes.parts ++ Stmt.partsElse no)
  | .loop condition body line => .loop condition body line :: body.parts
  | .func name parameters body line => .func name parameters body line :: Stmt.partsAll body
  | .ret value line => [.ret value line]

def Stmt.partsAll : List Stmt → List Stmt
  | [] => []
  | s :: ss => s.parts ++ Stmt.partsAll ss

def Stmt.partsElse : Option Stmt → List Stmt
  | none => []
  | some s => s.parts

end

/-- A statement with the tokens that it was read from. -/
structure Span where
  range : List Token
  statement : Stmt

/-- The first statements of a `for` with the tokens `w`, where `i` are those of its first clause:
the block around the loop, and the initial statement. -/
def initialSpans (w i : List Token) (loop : Stmt) (line : Nat) : Option Stmt → List Span
  | none => []
  | some s => [⟨w, .block [s, loop] line⟩, ⟨i, s⟩]

/-- The statements that a `for` repeats, where `v` are the tokens of its body, `u` those of its last
clause and `spans` the spans of the body. -/
def roundSpans (v u : List Token) (body : Stmt) (spans : List Span) : Option Expr → List Span
  | none => spans
  | some e => ⟨v, .block [body, .ofExpr e] body.line⟩ :: (spans ++ [⟨u, .ofExpr e⟩])

namespace Grammar

-- ---------------------------------------------------------------------------
-- Derivations with spans
-- ---------------------------------------------------------------------------

mutual

/-- The tokens of a statement, the kind of the token after them, the tree, and the spans. -/
inductive StatementSpans : List Token → Kind → Stmt → List Span → Prop where
  | simple {w next s} (h : Statement w next s) (hs : s.parts = [s]) :
      StatementSpans w next s [⟨w, s⟩]
  | block {opening : Token} {w body} {closing : Token} {next spans} (ho : opening.kind = .leftBrace)
      (h : AllSpans w .rightBrace body spans) (hc : closing.kind = .rightBrace) :
      StatementSpans (opening :: (w ++ [closing])) next (.block body opening.line)
        (⟨opening :: (w ++ [closing]), .block body opening.line⟩ :: spans)
  | ifOnly {u condition line v yes next spans} (hu : Guard .kwIf u condition line)
      (hv : StatementSpans v next yes spans) (hnext : next ≠ .kwElse) :
      StatementSpans (u ++ v) next (.branch condition yes none line)
        (⟨u ++ v, .branch condition yes none line⟩ :: spans)
  | ifElse {u condition line v yes spans} {other : Token} {w no next spans'}
      (hu : Guard .kwIf u condition line) (hv : StatementSpans v .kwElse yes spans)
      (ho : other.kind = .kwElse) (hw : StatementSpans w next no spans') :
      StatementSpans (u ++ (v ++ other :: w)) next (.branch condition yes (some no) line)
        (⟨u ++ (v ++ other :: w), .branch condition yes (some no) line⟩ :: (spans ++ spans'))
  | whileLoop {u condition line v body next spans} (hu : Guard .kwWhile u condition line)
      (hv : StatementSpans v next body spans) :
      StatementSpans (u ++ v) next (.loop condition body line)
        (⟨u ++ v, .loop condition body line⟩ :: spans)
  | forLoop {start opening : Token} {i initial c condition u update} {closing : Token}
      {v body next spans w loop}
      (hs : start.kind = .kwFor) (ho : opening.kind = .leftParen) (hi : ForInitial i initial)
      (h : ForCondition c condition) (hu : ForUpdate u update) (hc : closing.kind = .rightParen)
      (hv : StatementSpans v next body spans)
      (hw : w = start :: opening :: (i ++ (c ++ (u ++ [closing]))) ++ v)
      (hloop : loop = Stmt.forLoop none condition update body start.line) :
      StatementSpans w next (.forLoop initial condition update body start.line)
        (initialSpans w i loop start.line initial ++
          ⟨w, loop⟩ :: roundSpans v u body spans update)

/-- The same for declarations. -/
inductive DeclarationSpans : List Token → Kind → Stmt → List Span → Prop where
  | var {w next s} (h : VarDeclaration w s) : DeclarationSpans w next s [⟨w, s⟩]
  | function {u name names line} {opening : Token} {w body} {closing : Token} {next spans}
      (hu : FunctionHead u name names line) (ho : opening.kind = .leftBrace)
      (h : AllSpans w .rightBrace body spans) (hc : closing.kind = .rightBrace) :
      DeclarationSpans (u ++ opening :: (w ++ [closing])) next (.func name names body line)
        (⟨u ++ opening :: (w ++ [closing]), .func name names body line⟩ :: spans)
  | statement {w next s spans} (h : StatementSpans w next s spans) :
      DeclarationSpans w next s spans

/-- Declarations one after the other. -/
inductive AllSpans : List Token → Kind → List Stmt → List Span → Prop where
  | nil {next} : AllSpans [] next [] []
  | cons {w v next s ss spans spans'} (h : DeclarationSpans w (firstKind v next) s spans)
      (hv : AllSpans v next ss spans') : AllSpans (w ++ v) next (s :: ss) (spans ++ spans')

end

-- ---------------------------------------------------------------------------
-- Every derivation has spans
-- ---------------------------------------------------------------------------

theorem ExpressionStatement.parts {w s} (h : ExpressionStatement w s) : s.parts = [s] := by
  cases h
  rfl

theorem VarDeclaration.parts {w s} (h : VarDeclaration w s) : s.parts = [s] := by
  cases h <;> rfl

theorem ForInitial.parts {w s} (h : ForInitial w (some s)) : s.parts = [s] := by
  cases h with
  | var h | expression h => exact h.parts

mutual

theorem Statement.spans {w next s} : Statement w next s → ∃ spans, StatementSpans w next s spans
  | .expression h => ⟨_, .simple (.expression h) h.parts⟩
  | .print hs h hc => ⟨_, .simple (.print hs h hc) rfl⟩
  | .returnNothing hs hc => ⟨_, .simple (.returnNothing hs hc) rfl⟩
  | .returnValue hs h hc => ⟨_, .simple (.returnValue hs h hc) rfl⟩
  | .block ho h hc => by
    obtain ⟨spans, hspans⟩ := h.spans
    exact ⟨_, .block ho hspans hc⟩
  | .ifOnly hu hv hnext => by
    obtain ⟨spans, hspans⟩ := hv.spans
    exact ⟨_, .ifOnly hu hspans hnext⟩
  | .ifElse hu hv ho hw => by
    obtain ⟨spans, hspans⟩ := hv.spans
    obtain ⟨spans', hspans'⟩ := hw.spans
    exact ⟨_, .ifElse hu hspans ho hspans'⟩
  | .whileLoop hu hv => by
    obtain ⟨spans, hspans⟩ := hv.spans
    exact ⟨_, .whileLoop hu hspans⟩
  | .forLoop hu hv htree => by
    obtain rfl := forTree_iff.1 htree
    obtain ⟨spans, hspans⟩ := hv.spans
    cases hu with
    | mk hs ho hi h hu hc => exact ⟨_, .forLoop hs ho hi h hu hc hspans rfl rfl⟩

theorem Declaration.spans {w next s} :
    Declaration w next s → ∃ spans, DeclarationSpans w next s spans
  | .var h => ⟨_, .var h⟩
  | .function hu ho h hc => by
    obtain ⟨spans, hspans⟩ := h.spans
    exact ⟨_, .function hu ho hspans hc⟩
  | .statement h => by
    obtain ⟨spans, hspans⟩ := h.spans
    exact ⟨_, .statement hspans⟩

theorem Declarations.spans {w next ss} : Declarations w next ss → ∃ spans, AllSpans w next ss spans
  | .nil => ⟨_, .nil⟩
  | .cons h hv => by
    obtain ⟨spans, hspans⟩ := h.spans
    obtain ⟨spans', hspans'⟩ := hv.spans
    exact ⟨_, .cons hspans hspans'⟩

end

-- ---------------------------------------------------------------------------
-- Every part has a span
-- ---------------------------------------------------------------------------

theorem parts_forLoop {i initial} (hi : ForInitial i initial) (condition : Expr)
    (update : Option Expr) (body : Stmt) (line : Nat) (w u v : List Token) {spans : List Span}
    (h : spans.map Span.statement = body.parts) :
    (initialSpans w i (.forLoop none condition update body line) line initial ++
      ⟨w, .forLoop none condition update body line⟩ :: roundSpans v u body spans update).map
        Span.statement = (Stmt.forLoop initial condition update body line).parts := by
  have hround : (⟨w, .forLoop none condition update body line⟩ ::
      roundSpans v u body spans update).map Span.statement =
        (Stmt.forLoop none condition update body line).parts := by
    cases update <;>
      simp [roundSpans, Stmt.forLoop, Stmt.ofExpr, Stmt.parts, Stmt.partsAll, h]
  rw [List.map_append, hround]
  cases initial with
  | none => rfl
  | some s =>
    have hblock : (Stmt.forLoop (some s) condition update body line).parts =
        .block [s, .forLoop none condition update body line] line ::
          (s.parts ++ (Stmt.forLoop none condition update body line).parts) := by
      simp [Stmt.forLoop, Stmt.parts, Stmt.partsAll]
    rw [hblock, hi.parts]
    rfl

mutual

theorem StatementSpans.parts {w next s spans} :
    StatementSpans w next s spans → spans.map Span.statement = s.parts
  | .simple _ hs => hs.symm
  | .block _ h _ => congrArg _ h.parts
  | .ifOnly _ hv _ => by
    rw [List.map_cons, hv.parts, Stmt.parts, Stmt.partsElse, List.append_nil]
  | .ifElse _ hv _ hw => by
    rw [List.map_cons, List.map_append, hv.parts, hw.parts]
    rfl
  | .whileLoop _ hv => congrArg _ hv.parts
  | .forLoop _ _ hi _ _ _ hv _ hloop => hloop ▸ parts_forLoop hi _ _ _ _ _ _ _ hv.parts

theorem DeclarationSpans.parts {w next s spans} :
    DeclarationSpans w next s spans → spans.map Span.statement = s.parts
  | .var h => h.parts.symm
  | .function _ _ h _ => congrArg _ h.parts
  | .statement h => h.parts

theorem AllSpans.parts {w next ss spans} :
    AllSpans w next ss spans → spans.map Span.statement = Stmt.partsAll ss
  | .nil => rfl
  | .cons h hv => by rw [List.map_append, h.parts, hv.parts, Stmt.partsAll]

end

end Grammar

end Lox
