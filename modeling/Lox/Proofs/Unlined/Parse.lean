-- SUMMARY: The parser does not look at line numbers.
import Lox.Parse.Program
import Lox.Proofs.Attempt
import Lox.Proofs.Unlined.Basic

/-!
## Parsing without lines

A token list without lines parses to the statements and errors of the list itself without lines
(`parse_unlined`). Every function of the grammar is followed once, with its cursor and its result
seen without lines.
-/

namespace Lox

open Attempt

@[simp] theorem Token.kind_unlined (t : Token) : t.unlined.kind = t.kind := rfl

@[simp] theorem Token.literal_unlined (t : Token) : t.unlined.literal = t.literal := rfl

theorem Level.join?_unlined {level : Level} {k : Kind} {join : Expr → Expr → Nat → Expr}
    (h : level.join? k = some join) (left right : Expr) (line : Nat) :
    (join left right line).unlined = join left.unlined right.unlined 0 := by
  unfold Level.join? at h
  split at h <;> cases h <;> rfl

-- ---------------------------------------------------------------------------
-- Cursors
-- ---------------------------------------------------------------------------

namespace Cursor

def unlined (c : Cursor) : Cursor where
  taken := c.taken.map Token.unlined
  rest := c.rest.map Token.unlined

variable {c : Cursor} {kind : Kind}

theorem current_unlined : c.unlined.current = c.current.unlined := by
  unfold current unlined
  cases c.rest <;> rfl

theorem atEnd_unlined : c.unlined.atEnd = c.atEnd := by
  rw [atEnd, current_unlined]
  rfl

theorem sees_unlined : c.unlined.sees kind = c.sees kind := by
  rw [sees, current_unlined]
  rfl

theorem next_unlined : c.unlined.next = c.next.unlined := by
  obtain ⟨taken, rest⟩ := c
  cases rest with
  | nil => rfl
  | cons t ts =>
    by_cases h : t.kind = .endOfFile
    · simp [next, unlined, h]
    · simp [next, unlined, h]

/-- Cursors without lines. -/
def view : View ParseError Cursor where
  Holds _ := True
  state := unlined
  error := ParseError.unlined

theorem advance_unlined : c.unlined.advance = (c.current.unlined, c.next.unlined) := by
  rw [advance, current_unlined, next_unlined]

theorem eat_unlined : c.unlined.eat kind = ((c.eat kind).1, (c.eat kind).2.unlined) := by
  unfold eat
  rw [sees_unlined]
  split
  · rw [next_unlined]
  · rfl

theorem expect_unlined (expected : String) :
    c.unlined.expect kind expected = view.result Token.unlined (c.expect kind expected) := by
  unfold expect
  rw [sees_unlined, current_unlined, next_unlined]
  split <;> rfl

theorem expectIdentifier_unlined (expected : String) :
    c.unlined.expectIdentifier expected =
      view.result Token.unlined (c.expectIdentifier expected) := by
  unfold expectIdentifier
  rw [sees_unlined, current_unlined, next_unlined]
  split <;> rfl

end Cursor

-- ---------------------------------------------------------------------------
-- Steps
-- ---------------------------------------------------------------------------

namespace Parse

/-- `q` does without lines what `p` does. -/
def Unlines {α : Type} (see : α → α) (p q : Parse α) : Prop :=
  Cursor.view.Matches see p q

namespace Unlines

variable {α β : Type} {see : α → α} {see' : β → β}

theorem pure {a b : α} (h : b = see a) : Unlines see (Pure.pure a) (Pure.pure b) :=
  h ▸ View.Matches.pure a

theorem fail (e : ParseError) : Unlines see (Attempt.fail e) (Attempt.fail e.unlined) :=
  View.Matches.fail e

theorem cutOff : Unlines see Attempt.cutOff Attempt.cutOff :=
  View.Matches.cutOff

theorem bind {p q : Parse α} {f g : α → Parse β} (hp : Unlines see p q)
    (hf : ∀ a, Unlines see' (f a) (g (see a))) : Unlines see' (p >>= f) (q >>= g) :=
  View.Matches.bind hp hf

theorem ite {p p' q q' : Parse α} (b : Bool) (h : Unlines see p q) (h' : Unlines see p' q') :
    Unlines see (if b then p else p') (if b then q else q') :=
  View.Matches.ite b h h'

theorem current : Unlines Token.unlined Parse.current Parse.current :=
  View.Matches.gets fun _ _ => Cursor.current_unlined

theorem advance : Unlines Token.unlined Parse.advance Parse.advance :=
  View.Matches.step fun _ _ => ⟨Cursor.advance_unlined, trivial⟩

theorem atEnd : Unlines id Parse.atEnd Parse.atEnd :=
  View.Matches.gets fun _ _ => Cursor.atEnd_unlined

theorem sees (kind : Kind) : Unlines id (Parse.sees kind) (Parse.sees kind) :=
  View.Matches.gets fun _ _ => Cursor.sees_unlined

theorem eat (kind : Kind) : Unlines id (Parse.eat kind) (Parse.eat kind) :=
  View.Matches.step fun _ _ => ⟨Cursor.eat_unlined, trivial⟩

theorem expect (kind : Kind) (expected : String) :
    Unlines Token.unlined (Parse.expect kind expected) (Parse.expect kind expected) :=
  View.Matches.tryStep fun _ _ => ⟨Cursor.expect_unlined expected, trivial⟩

theorem expectIdentifier (expected : String) :
    Unlines Token.unlined (Parse.expectIdentifier expected) (Parse.expectIdentifier expected) :=
  View.Matches.tryStep fun _ _ => ⟨Cursor.expectIdentifier_unlined expected, trivial⟩

theorem declaredName (expected : String) :
    Unlines Name.unlined (Parse.declaredName expected) (Parse.declaredName expected) :=
  .bind (.expectIdentifier expected) fun _ => .pure rfl

theorem leaf (e : Expr) : Unlines Expr.unlined (Parse.leaf e) (Parse.leaf e.unlined) :=
  .bind .advance fun _ => .pure rfl

end Unlines

-- ---------------------------------------------------------------------------
-- Expressions
-- ---------------------------------------------------------------------------

/-- The functions for expressions do not look at lines. -/
structure ExpressionsUnlined (n : Nat) : Prop where
  expression : Unlines Expr.unlined (expression n) (expression n)
  operators : ∀ levels, Unlines Expr.unlined (operators n levels) (operators n levels)
  operatorsAfter : ∀ level tighter left, Unlines Expr.unlined
    (operatorsAfter n level tighter left) (operatorsAfter n level tighter left.unlined)
  unary : Unlines Expr.unlined (unary n) (unary n)
  call : Unlines Expr.unlined (call n) (call n)
  callsAfter : ∀ callee, Unlines Expr.unlined (callsAfter n callee) (callsAfter n callee.unlined)
  arguments : Unlines Expr.unlinedAll (arguments n) (arguments n)
  argumentList : Unlines Expr.unlinedAll (argumentList n) (argumentList n)
  primary : Unlines Expr.unlined (primary n) (primary n)

namespace ExpressionsUnlined

variable {n : Nat} (ih : ExpressionsUnlined n)

include ih

theorem expression_succ :
    Unlines Expr.unlined (Parse.expression (n + 1)) (Parse.expression (n + 1)) := by
  unfold Parse.expression
  refine .bind (ih.operators _) fun target => .bind (.sees _) fun b => .ite b ?_ (.pure rfl)
  refine .bind .advance fun equal => .bind ih.expression fun value => ?_
  cases target <;> first | exact .pure rfl | exact .fail _

theorem operators_succ (levels : List Level) :
    Unlines Expr.unlined (Parse.operators (n + 1) levels) (Parse.operators (n + 1) levels) := by
  cases levels with
  | nil => exact ih.unary
  | cons level tighter => exact .bind (ih.operators _) fun left => ih.operatorsAfter _ _ _

theorem operatorsAfter_succ (level : Level) (tighter : List Level) (left : Expr) :
    Unlines Expr.unlined (Parse.operatorsAfter (n + 1) level tighter left)
      (Parse.operatorsAfter (n + 1) level tighter left.unlined) := by
  unfold Parse.operatorsAfter
  refine .bind .current fun t => ?_
  rw [Token.kind_unlined]
  cases h : level.join? t.kind with
  | none => exact .pure rfl
  | some join =>
    refine .bind .advance fun operator => .bind (ih.operators _) fun right => ?_
    rw [show operator.unlined.line = 0 from rfl, ← Level.join?_unlined h]
    exact ih.operatorsAfter _ _ _

theorem unary_succ : Unlines Expr.unlined (Parse.unary (n + 1)) (Parse.unary (n + 1)) := by
  unfold Parse.unary
  refine .bind .current fun t => ?_
  rw [Token.kind_unlined]
  cases UnaryOp.ofKind? t.kind with
  | none => exact ih.call
  | some op => exact .bind .advance fun _ => .bind ih.unary fun _ => .pure rfl

theorem call_succ : Unlines Expr.unlined (Parse.call (n + 1)) (Parse.call (n + 1)) :=
  .bind ih.primary fun _ => ih.callsAfter _

theorem callsAfter_succ (callee : Expr) :
    Unlines Expr.unlined (Parse.callsAfter (n + 1) callee)
      (Parse.callsAfter (n + 1) callee.unlined) := by
  unfold Parse.callsAfter
  refine .bind .current fun t => ?_
  rw [Token.kind_unlined]
  split
  · exact .bind .advance fun opening => .bind ih.arguments fun _ => ih.callsAfter _
  · exact .bind .advance fun dot => .bind (.expectIdentifier _) fun _ => ih.callsAfter _
  · exact .pure rfl

theorem arguments_succ :
    Unlines Expr.unlinedAll (Parse.arguments (n + 1)) (Parse.arguments (n + 1)) := by
  unfold Parse.arguments
  refine .bind (.sees _) fun b => .ite b ?_ ?_
  · exact .bind (.pure rfl) fun _ => .bind (.expect _ _) fun _ => .pure rfl
  · exact .bind ih.argumentList fun _ => .bind (.expect _ _) fun _ => .pure rfl

theorem argumentList_succ :
    Unlines Expr.unlinedAll (Parse.argumentList (n + 1)) (Parse.argumentList (n + 1)) := by
  unfold Parse.argumentList
  refine .bind ih.expression fun _ => .bind (.eat _) fun b => .ite b ?_ (.pure rfl)
  exact .bind ih.argumentList fun _ => .pure rfl

theorem primary_succ : Unlines Expr.unlined (Parse.primary (n + 1)) (Parse.primary (n + 1)) := by
  unfold Parse.primary
  refine .bind .current fun t => ?_
  rw [Token.kind_unlined, Token.literal_unlined]
  split
  all_goals first | exact .leaf _ | exact .fail _ | skip
  exact .bind .advance fun _ => .bind ih.expression fun _ =>
    .bind (.expect _ _) fun _ => .pure rfl

end ExpressionsUnlined

theorem expressionsUnlined (n : Nat) : ExpressionsUnlined n := by
  induction n with
  | zero => constructor <;> intros <;> exact .cutOff
  | succ n ih =>
    exact ⟨ih.expression_succ, ih.operators_succ, ih.operatorsAfter_succ, ih.unary_succ,
      ih.call_succ, ih.callsAfter_succ, ih.arguments_succ, ih.argumentList_succ, ih.primary_succ⟩

-- ---------------------------------------------------------------------------
-- Statements
-- ---------------------------------------------------------------------------

section

variable {n : Nat}

theorem expressionStatement_unlined :
    Unlines Stmt.unlined (expressionStatement n) (expressionStatement n) :=
  .bind (expressionsUnlined n).expression fun e => .bind (.expect _ _) fun _ =>
    .pure (Stmt.unlined_ofExpr e).symm

theorem printStatement_unlined :
    Unlines Stmt.unlined (printStatement n) (printStatement n) :=
  .bind .advance fun _ => .bind (expressionsUnlined n).expression fun _ =>
    .bind (.expect _ _) fun _ => .pure rfl

theorem returnStatement_unlined :
    Unlines Stmt.unlined (returnStatement n) (returnStatement n) := by
  simp only [returnStatement]
  refine .bind .advance fun _ => .bind (.sees _) fun b => .ite b ?_ ?_
  · exact .bind (.pure rfl) fun _ => .bind (.expect _ _) fun _ => .pure rfl
  · exact .bind (expressionsUnlined n).expression fun _ => .bind (.expect _ _) fun _ => .pure rfl

theorem initialValue_unlined (name : Name) :
    Unlines Expr.unlined (initialValue n name) (initialValue n name.unlined) :=
  .bind (.eat _) fun b => .ite b (expressionsUnlined n).expression <|
    .bind (.sees _) fun b => .ite b (.pure rfl) (expressionsUnlined n).expression

theorem varDeclaration_unlined :
    Unlines Stmt.unlined (varDeclaration n) (varDeclaration n) :=
  .bind .advance fun _ => .bind (.declaredName _) fun name =>
    .bind (initialValue_unlined name) fun _ => .bind (.expect _ _) fun _ => .pure rfl

theorem forInitial_unlined :
    Unlines Stmt.unlinedElse (forInitial n) (forInitial n) := by
  simp only [forInitial]
  refine .bind .current fun t => ?_
  rw [Token.kind_unlined]
  split
  · exact .bind .advance fun _ => .pure rfl
  · exact .bind varDeclaration_unlined fun _ => .pure rfl
  · exact .bind expressionStatement_unlined fun _ => .pure rfl

theorem forCondition_unlined :
    Unlines Expr.unlined (forCondition n) (forCondition n) := by
  simp only [forCondition]
  refine .bind .current fun t => ?_
  rw [Token.kind_unlined]
  split
  · exact .bind (.pure rfl) fun _ => .bind (.expect _ _) fun _ => .pure rfl
  · exact .bind (expressionsUnlined n).expression fun _ => .bind (.expect _ _) fun _ => .pure rfl

theorem forUpdate_unlined :
    Unlines (Option.map Expr.unlined) (forUpdate n) (forUpdate n) := by
  simp only [forUpdate]
  refine .bind (.sees _) fun b => .ite b ?_ ?_
  · exact .bind (.pure rfl) fun _ => .bind (.expect _ _) fun _ => .pure rfl
  · exact .bind (.bind (expressionsUnlined n).expression fun _ => .pure rfl) fun _ =>
      .bind (.expect _ _) fun _ => .pure rfl

theorem parameterList_unlined :
    Unlines (List.map Name.unlined) (parameterList n) (parameterList n) := by
  induction n with
  | zero => exact .cutOff
  | succ n ih =>
    simp only [parameterList]
    refine .bind (.declaredName _) fun _ => .bind (.eat _) fun b => .ite b ?_ (.pure rfl)
    exact .bind ih fun _ => .pure rfl

theorem parameters_unlined :
    Unlines (List.map Name.unlined) (parameters n) (parameters n) := by
  simp only [parameters]
  refine .bind (.sees _) fun b => .ite b ?_ ?_
  · exact .bind (.pure rfl) fun _ => .bind (.expect _ _) fun _ => .pure rfl
  · exact .bind parameterList_unlined fun _ => .bind (.expect _ _) fun _ => .pure rfl

end

/-- The functions for statements do not look at lines. -/
structure StatementsUnlined (n : Nat) : Prop where
  declaration : Unlines Stmt.unlined (declaration n) (declaration n)
  statement : Unlines Stmt.unlined (statement n) (statement n)
  blockBody : Unlines Stmt.unlinedAll (blockBody n) (blockBody n)
  function : Unlines Stmt.unlined (function n) (function n)
  forStatement : Unlines Stmt.unlined (forStatement n) (forStatement n)
  ifStatement : Unlines Stmt.unlined (ifStatement n) (ifStatement n)
  whileStatement : Unlines Stmt.unlined (whileStatement n) (whileStatement n)

namespace StatementsUnlined

variable {n : Nat} (ih : StatementsUnlined n)

include ih

theorem declaration_succ :
    Unlines Stmt.unlined (Parse.declaration (n + 1)) (Parse.declaration (n + 1)) := by
  unfold Parse.declaration
  refine .bind .current fun t => ?_
  rw [Token.kind_unlined]
  split
  · exact ih.function
  · exact varDeclaration_unlined
  · exact ih.statement

theorem statement_succ :
    Unlines Stmt.unlined (Parse.statement (n + 1)) (Parse.statement (n + 1)) := by
  unfold Parse.statement
  refine .bind .current fun t => ?_
  rw [Token.kind_unlined]
  split
  · exact ih.forStatement
  · exact ih.ifStatement
  · exact printStatement_unlined
  · exact returnStatement_unlined
  · exact ih.whileStatement
  · exact .bind .advance fun _ => .bind ih.blockBody fun _ => .pure rfl
  · exact expressionStatement_unlined

theorem blockBody_succ :
    Unlines Stmt.unlinedAll (Parse.blockBody (n + 1)) (Parse.blockBody (n + 1)) := by
  refine .bind (.sees _) fun _ => .bind .atEnd fun _ => .ite _ ?_ ?_
  · exact .bind (.expect _ _) fun _ => .pure rfl
  · exact .bind ih.declaration fun _ => .bind ih.blockBody fun _ => .pure rfl

theorem function_succ :
    Unlines Stmt.unlined (Parse.function (n + 1)) (Parse.function (n + 1)) := by
  exact .bind .advance fun _ => .bind (.declaredName _) fun _ => .bind (.expect _ _) fun _ =>
    .bind parameters_unlined fun _ => .bind (.expect _ _) fun _ =>
      .bind ih.blockBody fun _ => .pure rfl

theorem forStatement_succ :
    Unlines Stmt.unlined (Parse.forStatement (n + 1)) (Parse.forStatement (n + 1)) := by
  exact .bind .advance fun _ => .bind (.expect _ _) fun _ =>
    .bind forInitial_unlined fun _ => .bind forCondition_unlined fun _ =>
      .bind forUpdate_unlined fun _ => .bind ih.statement fun _ =>
        .pure (Stmt.unlined_forLoop ..).symm

theorem ifStatement_succ :
    Unlines Stmt.unlined (Parse.ifStatement (n + 1)) (Parse.ifStatement (n + 1)) := by
  refine .bind .advance fun _ => .bind (.expect _ _) fun _ =>
    .bind (expressionsUnlined n).expression fun _ => .bind (.expect _ _) fun _ =>
      .bind ih.statement fun _ => .bind (.eat _) fun b => .ite b ?_ (.pure rfl)
  exact .bind ih.statement fun _ => .pure rfl

theorem whileStatement_succ :
    Unlines Stmt.unlined (Parse.whileStatement (n + 1)) (Parse.whileStatement (n + 1)) := by
  exact .bind .advance fun _ => .bind (.expect _ _) fun _ =>
    .bind (expressionsUnlined n).expression fun _ => .bind (.expect _ _) fun _ =>
      .bind ih.statement fun _ => .pure rfl

end StatementsUnlined

theorem statementsUnlined (n : Nat) : StatementsUnlined n := by
  induction n with
  | zero => constructor <;> exact .cutOff
  | succ n ih =>
    exact ⟨ih.declaration_succ, ih.statement_succ, ih.blockBody_succ, ih.function_succ,
      ih.forStatement_succ, ih.ifStatement_succ, ih.whileStatement_succ⟩

end Parse

-- ---------------------------------------------------------------------------
-- Recovery
-- ---------------------------------------------------------------------------

theorem Nesting.ofTokens_unlined (ts : List Token) :
    ofTokens (ts.map Token.unlined) = ofTokens ts :=
  List.foldl_map

theorem declarationEnds_unlined (compound : Bool) (nesting : Nesting) (last? : Option Token)
    (next : Kind) :
    declarationEnds compound nesting (last?.map Token.unlined) next =
      declarationEnds compound nesting last? next := by
  cases last? <;> rfl

theorem skipFrom_unlined (compound : Bool) (nesting : Nesting) (taken rest : List Token) :
    skipFrom compound nesting (taken.map Token.unlined) (rest.map Token.unlined) =
      (skipFrom compound nesting taken rest).unlined := by
  induction rest generalizing nesting taken with
  | nil => rfl
  | cons t rest ih =>
    rw [skipFrom, List.map_cons, skipFrom, List.head?_map, declarationEnds_unlined,
      Token.kind_unlined]
    split
    · rfl
    · exact ih (nesting.step t.kind) (t :: taken)

theorem Cursor.position_unlined (c : Cursor) : c.unlined.position = c.position :=
  List.length_map _

theorem Cursor.skipDeclaration_unlined (c : Cursor) (start : Nat) :
    c.unlined.skipDeclaration start = (c.skipDeclaration start).unlined := by
  have htaken (c : Cursor) :
      c.unlined.takenSince start = (c.takenSince start).map Token.unlined := by
    simp [takenSince, unlined]
  have hmoved : (if c.unlined.position = start then c.unlined.next else c.unlined) =
      (if c.position = start then c.next else c).unlined := by
    rw [position_unlined, next_unlined]
    split <;> rfl
  unfold skipDeclaration
  simp only [hmoved, htaken, List.head?_map, Option.map_map, Nesting.ofTokens_unlined]
  exact skipFrom_unlined ..

-- ---------------------------------------------------------------------------
-- Programs
-- ---------------------------------------------------------------------------

def Parsed.unlined (p : Parsed) : Parsed where
  statements := Stmt.unlinedAll p.statements
  errors := p.errors.map ParseError.unlined

theorem parseDeclaration_unlined (c : Cursor) :
    parseDeclaration c.unlined = Cursor.view.result Stmt.unlined (parseDeclaration c) := by
  have hbudget : c.unlined.budget = c.budget := by
    simp [Cursor.budget, Cursor.unlined]
  have hrun : Parse.declaration c.budget c.unlined =
      (Parse.declaration c.budget c).map (Cursor.view.result Stmt.unlined) :=
    ((Parse.statementsUnlined c.budget).declaration c trivial).1
  rw [parseDeclaration, parseDeclaration, hbudget, hrun, Cursor.current_unlined]
  cases Parse.declaration c.budget c <;> rfl

theorem declarationsWithin_unlined (n : Nat) (c : Cursor) :
    declarationsWithin n c.unlined = (declarationsWithin n c).unlined := by
  induction n generalizing c with
  | zero => rfl
  | succ n ih =>
    rw [declarationsWithin, declarationsWithin, Cursor.atEnd_unlined, parseDeclaration_unlined,
      c.position_unlined]
    cases c.atEnd with
    | true => rfl
    | false =>
      rcases parseDeclaration c with ⟨e | s, d⟩
      · simp only [Bool.false_eq_true, if_false, View.result, Cursor.view,
          d.skipDeclaration_unlined, ih]
        rfl
      · simp only [Bool.false_eq_true, if_false, View.result, Cursor.view, ih]
        rfl

theorem parse_unlined (ts : List Token) : parse (ts.map Token.unlined) = (parse ts).unlined := by
  rw [parse, List.length_map]
  exact declarationsWithin_unlined ts.length (.ofTokens ts)

end Lox
