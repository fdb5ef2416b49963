-- SUMMARY: A phrase depends on the tokens it takes and on the one after them, and not on its fuel.
import Lox.Parse.Grammar
import Lox.Proofs.Parse.Taking

/-!
## Lookahead

`p.Refines q` says that whatever `p` does at one cursor, `q` does at every cursor that shows the
same tokens, those that are taken and one more. Sequences of refining steps refine each other, so
for the grammar it is enough to follow its functions. With `p` and `q` the same function on less
and on more fuel, two facts come out of one induction: the rest of the list does not matter, and
neither does the fuel, once it is enough.
-/

namespace Lox

namespace Parse

def Refines {α : Type} (p q : Parse α) : Prop :=
  ∀ c r d, p c = some (r, d) → ∃ w, c.Takes w d ∧
    ∀ c' d', c'.Takes w d' → d'.current = d.current → q c' = some (r, d')

namespace Refines

variable {α β : Type}

theorem pure (a : α) : Refines (Pure.pure a) (Pure.pure a) := by
  intro c r d h
  cases h
  refine ⟨[], .refl c, fun c' d' h' _ => ?_⟩
  rw [h'.current_of_nil]
  rfl

theorem fail (e : ParseError) : Refines (α := α) (Attempt.fail e) (Attempt.fail e) := by
  intro c r d h
  cases h
  refine ⟨[], .refl c, fun c' d' h' _ => ?_⟩
  rw [h'.current_of_nil]
  rfl

theorem cutOff (q : Parse α) : Refines Attempt.cutOff q := by
  intro c r d h
  cases h

/-- In a sequence the token after the first part is the first one of the second part, or the token
after the second part if that takes nothing. -/
theorem bind {p q : Parse α} {f g : α → Parse β} (hp : Refines p q)
    (hf : ∀ a, Refines (f a) (g a)) : Refines (p >>= f) (q >>= g) := by
  intro c r d h
  rw [Attempt.bind_apply] at h
  cases hpc : p c with
  | none => rw [hpc] at h; cases h
  | some result =>
    obtain ⟨r₁, m⟩ := result
    obtain ⟨u, hu, hq⟩ := hp c r₁ m hpc
    rw [hpc] at h
    cases r₁ with
    | error e =>
      cases h
      refine ⟨u, hu, fun c' d' h' hd => ?_⟩
      rw [Attempt.bind_apply, hq c' d' h' hd]
    | ok a =>
      obtain ⟨v, hv, hg⟩ := hf a m r d h
      refine ⟨u ++ v, hu.trans hv, fun c' d' h' hd => ?_⟩
      obtain ⟨m', hu', hv'⟩ := h'.split
      have hm : m'.current = m.current := by
        cases v with
        | nil => rw [← hv'.current_of_nil, ← hv.current_of_nil, hd]
        | cons t v => rw [hv'.current_of_cons, hv.current_of_cons]
      rw [Attempt.bind_apply, hq c' m' hu' hm]
      exact hg m' d' hv' hd

theorem gets (f : Token → α) :
    Refines (Attempt.gets fun c => f c.current) (Attempt.gets fun c => f c.current) := by
  intro c r d h
  cases h
  refine ⟨[], .refl c, fun c' d' h' hd => ?_⟩
  rw [h'.current_of_nil] at hd ⊢
  simp [hd]

theorem current : Refines Parse.current Parse.current := gets id
theorem atEnd : Refines Parse.atEnd Parse.atEnd := gets fun t => t.kind == .endOfFile
theorem sees (kind : Kind) : Refines (Parse.sees kind) (Parse.sees kind) :=
  gets fun t => t.kind == kind

/-- A step that looks at the current token and may move past it. -/
theorem step {p : Parse α} (f : Token → Except ParseError α) (moves : Token → Bool)
    (hp : ∀ c, p c = some (f c.current, if moves c.current then c.next else c)) : Refines p p := by
  intro c r d h
  rw [hp c] at h
  by_cases hmove : moves c.current = true ∧ c.current.kind ≠ .endOfFile
  · obtain ⟨hmove, hend⟩ := hmove
    rw [if_pos hmove] at h
    cases h
    refine ⟨[c.current], Cursor.next_takes hend, fun c' d' h' _ => ?_⟩
    have hc : c'.current = c.current := h'.current_of_cons
    have hd : d' = c'.next := h'.unique (hc ▸ Cursor.next_takes (hc ▸ hend))
    rw [hp c', hc, if_pos hmove, hd]
  · -- at the end of the list a step stays, whether it would move or not
    have stays : ∀ c' : Cursor, c'.current = c.current →
        (if moves c'.current then c'.next else c') = c' := by
      intro c' hc
      split
      · next hm =>
        have hend : c'.current.kind = .endOfFile :=
          Decidable.byContradiction fun hend => hmove ⟨hc ▸ hm, hc ▸ hend⟩
        exact Cursor.next_eq_self hend
      · rfl
    rw [stays c rfl] at h
    cases h
    refine ⟨[], .refl c, fun c' d' h' hd => ?_⟩
    rw [h'.current_of_nil] at hd ⊢
    rw [hp c', stays c' hd, hd]

theorem advance : Refines Parse.advance Parse.advance :=
  step .ok (fun _ => true) fun _ => rfl

theorem eat (kind : Kind) : Refines (Parse.eat kind) (Parse.eat kind) := by
  refine step (fun t => .ok (t.kind == kind)) (fun t => t.kind == kind) fun c => ?_
  by_cases h : c.current.kind = kind <;> simp [Parse.eat, Cursor.eat, Cursor.sees, h]

theorem expect (kind : Kind) (expected : String) :
    Refines (Parse.expect kind expected) (Parse.expect kind expected) := by
  refine step (fun t => if t.kind == kind then .ok t else .error ⟨.unexpectedToken expected, t⟩)
    (fun t => t.kind == kind) fun c => ?_
  by_cases h : c.current.kind = kind <;> simp [Parse.expect, Cursor.expect, Cursor.sees, h]

theorem expectIdentifier (expected : String) :
    Refines (Parse.expectIdentifier expected) (Parse.expectIdentifier expected) := by
  refine step
    (fun t => if t.kind == .identifier then .ok t else .error ⟨.expectedIdentifier expected, t⟩)
    (fun t => t.kind == .identifier) fun c => ?_
  by_cases h : c.current.kind = .identifier <;>
    simp [Parse.expectIdentifier, Cursor.expectIdentifier, Cursor.sees, h]

theorem declaredName (expected : String) :
    Refines (Parse.declaredName expected) (Parse.declaredName expected) :=
  .bind (.expectIdentifier expected) fun _ => .pure _

theorem leaf (e : Expr) : Refines (Parse.leaf e) (Parse.leaf e) :=
  .bind .advance fun _ => .pure _

theorem ite {p p' q q' : Parse α} (b : Bool) (hp : Refines p q) (hp' : Refines p' q') :
    Refines (if b then p else p') (if b then q else q') := by
  cases b
  · exact hp'
  · exact hp

end Refines

-- ---------------------------------------------------------------------------
-- Expressions
-- ---------------------------------------------------------------------------

/-- More fuel changes nothing for the expressions. -/
structure ExpressionsRefine (n m : Nat) : Prop where
  expression : Refines (expression n) (expression m)
  operators : ∀ levels, Refines (operators n levels) (operators m levels)
  operatorsAfter : ∀ level tighter left,
    Refines (operatorsAfter n level tighter left) (operatorsAfter m level tighter left)
  unary : Refines (unary n) (unary m)
  call : Refines (call n) (call m)
  callsAfter : ∀ callee, Refines (callsAfter n callee) (callsAfter m callee)
  arguments : Refines (arguments n) (arguments m)
  argumentList : Refines (argumentList n) (argumentList m)
  primary : Refines (primary n) (primary m)

namespace ExpressionsRefine

variable {n m : Nat} (ih : ExpressionsRefine n m)

include ih

theorem expression_succ : Refines (Parse.expression (n + 1)) (Parse.expression (m + 1)) := by
  unfold Parse.expression
  refine .bind (ih.operators _) fun target => .bind (.sees _) fun b => .ite b ?_ (.pure _)
  refine .bind .advance fun equal => .bind ih.expression fun value => ?_
  cases target <;> first | exact .pure _ | exact .fail _

theorem operators_succ (levels : List Level) :
    Refines (Parse.operators (n + 1) levels) (Parse.operators (m + 1) levels) := by
  cases levels with
  | nil => exact ih.unary
  | cons level tighter => exact .bind (ih.operators _) fun left => ih.operatorsAfter _ _ _

theorem operatorsAfter_succ (level : Level) (tighter : List Level) (left : Expr) :
    Refines (Parse.operatorsAfter (n + 1) level tighter left)
      (Parse.operatorsAfter (m + 1) level tighter left) := by
  unfold Parse.operatorsAfter
  refine .bind .current fun t => ?_
  cases level.join? t.kind with
  | none => exact .pure _
  | some join =>
    exact .bind .advance fun _ => .bind (ih.operators _) fun _ => ih.operatorsAfter _ _ _

theorem unary_succ : Refines (Parse.unary (n + 1)) (Parse.unary (m + 1)) := by
  unfold Parse.unary
  refine .bind .current fun t => ?_
  cases UnaryOp.ofKind? t.kind with
  | none => exact ih.call
  | some op => exact .bind .advance fun _ => .bind ih.unary fun _ => .pure _

theorem call_succ : Refines (Parse.call (n + 1)) (Parse.call (m + 1)) :=
  .bind ih.primary fun _ => ih.callsAfter _

theorem callsAfter_succ (callee : Expr) :
    Refines (Parse.callsAfter (n + 1) callee) (Parse.callsAfter (m + 1) callee) := by
  unfold Parse.callsAfter
  refine .bind .current fun t => ?_
  split
  · exact .bind .advance fun _ => .bind ih.arguments fun _ => ih.callsAfter _
  · exact .bind .advance fun _ => .bind (.expectIdentifier _) fun _ => ih.callsAfter _
  · exact .pure _

theorem arguments_succ : Refines (Parse.arguments (n + 1)) (Parse.arguments (m + 1)) := by
  unfold Parse.arguments
  refine .bind (.sees _) fun b => .ite b ?_ ?_
  · exact .bind (.pure _) fun _ => .bind (.expect _ _) fun _ => .pure _
  · exact .bind ih.argumentList fun _ => .bind (.expect _ _) fun _ => .pure _

theorem argumentList_succ :
    Refines (Parse.argumentList (n + 1)) (Parse.argumentList (m + 1)) := by
  unfold Parse.argumentList
  refine .bind ih.expression fun _ => .bind (.eat _) fun b => .ite b ?_ (.pure _)
  exact .bind ih.argumentList fun _ => .pure _

theorem primary_succ : Refines (Parse.primary (n + 1)) (Parse.primary (m + 1)) := by
  unfold Parse.primary
  refine .bind .current fun t => ?_
  split
  all_goals first | exact .leaf _ | exact .fail _ | skip
  exact .bind .advance fun _ => .bind ih.expression fun _ =>
    .bind (.expect _ _) fun _ => .pure _

end ExpressionsRefine

theorem expressionsRefine {n m : Nat} (h : n ≤ m) : ExpressionsRefine n m := by
  induction n generalizing m with
  | zero =>
    constructor <;> intros <;> exact .cutOff _
  | succ n ih =>
    obtain ⟨m, rfl⟩ : ∃ k, m = k + 1 := ⟨m - 1, by omega⟩
    have ih := ih (m := m) (by omega)
    exact ⟨ih.expression_succ, ih.operators_succ, ih.operatorsAfter_succ, ih.unary_succ,
      ih.call_succ, ih.callsAfter_succ, ih.arguments_succ, ih.argumentList_succ, ih.primary_succ⟩

-- ---------------------------------------------------------------------------
-- Statements
-- ---------------------------------------------------------------------------

section

variable {n m : Nat}

theorem expressionStatement_refines (h : ExpressionsRefine n m) :
    Refines (expressionStatement n) (expressionStatement m) :=
  .bind h.expression fun _ => .bind (.expect _ _) fun _ => .pure _

theorem printStatement_refines (h : ExpressionsRefine n m) :
    Refines (printStatement n) (printStatement m) :=
  .bind .advance fun _ => .bind h.expression fun _ => .bind (.expect _ _) fun _ => .pure _

theorem returnStatement_refines (h : ExpressionsRefine n m) :
    Refines (returnStatement n) (returnStatement m) := by
  simp only [returnStatement]
  refine .bind .advance fun _ => .bind (.sees _) fun b => .ite b ?_ ?_
  · exact .bind (.pure _) fun _ => .bind (.expect _ _) fun _ => .pure _
  · exact .bind h.expression fun _ => .bind (.expect _ _) fun _ => .pure _

theorem initialValue_refines (h : ExpressionsRefine n m) (name : Name) :
    Refines (initialValue n name) (initialValue m name) :=
  .bind (.eat _) fun b => .ite b h.expression <|
    .bind (.sees _) fun b => .ite b (.pure _) h.expression

theorem varDeclaration_refines (h : ExpressionsRefine n m) :
    Refines (varDeclaration n) (varDeclaration m) :=
  .bind .advance fun _ => .bind (.declaredName _) fun name =>
    .bind (initialValue_refines h name) fun _ => .bind (.expect _ _) fun _ => .pure _

theorem forInitial_refines (h : ExpressionsRefine n m) :
    Refines (forInitial n) (forInitial m) := by
  simp only [forInitial]
  refine .bind .current fun t => ?_
  split
  · exact .bind .advance fun _ => .pure _
  · exact .bind (varDeclaration_refines h) fun _ => .pure _
  · exact .bind (expressionStatement_refines h) fun _ => .pure _

theorem forCondition_refines (h : ExpressionsRefine n m) :
    Refines (forCondition n) (forCondition m) := by
  simp only [forCondition]
  refine .bind .current fun t => ?_
  split
  · exact .bind (.pure _) fun _ => .bind (.expect _ _) fun _ => .pure _
  · exact .bind h.expression fun _ => .bind (.expect _ _) fun _ => .pure _

theorem forUpdate_refines (h : ExpressionsRefine n m) :
    Refines (forUpdate n) (forUpdate m) := by
  simp only [forUpdate]
  refine .bind (.sees _) fun b => .ite b ?_ ?_
  · exact .bind (.pure _) fun _ => .bind (.expect _ _) fun _ => .pure _
  · exact .bind (.bind h.expression fun _ => .pure _) fun _ => .bind (.expect _ _) fun _ => .pure _

theorem parameterList_refines (h : n ≤ m) : Refines (parameterList n) (parameterList m) := by
  induction n generalizing m with
  | zero => exact .cutOff _
  | succ n ih =>
    obtain ⟨m, rfl⟩ : ∃ k, m = k + 1 := ⟨m - 1, by omega⟩
    simp only [parameterList]
    refine .bind (.declaredName _) fun _ => .bind (.eat _) fun b => .ite b ?_ (.pure _)
    exact .bind (ih (by omega)) fun _ => .pure _

theorem parameters_refines (h : n ≤ m) : Refines (parameters n) (parameters m) := by
  simp only [parameters]
  refine .bind (.sees _) fun b => .ite b ?_ ?_
  · exact .bind (.pure _) fun _ => .bind (.expect _ _) fun _ => .pure _
  · exact .bind (parameterList_refines h) fun _ => .bind (.expect _ _) fun _ => .pure _

end

/-- More fuel changes nothing for the statements. -/
structure StatementsRefine (n m : Nat) : Prop where
  declaration : Refines (declaration n) (declaration m)
  statement : Refines (statement n) (statement m)
  blockBody : Refines (blockBody n) (blockBody m)
  function : Refines (function n) (function m)
  forStatement : Refines (forStatement n) (forStatement m)
  ifStatement : Refines (ifStatement n) (ifStatement m)
  whileStatement : Refines (whileStatement n) (whileStatement m)

namespace StatementsRefine

variable {n m : Nat} (ih : StatementsRefine n m)

include ih

theorem declaration_succ (h : n ≤ m) :
    Refines (Parse.declaration (n + 1)) (Parse.declaration (m + 1)) := by
  have he := expressionsRefine h
  unfold Parse.declaration
  refine .bind .current fun t => ?_
  split
  · exact ih.function
  · exact varDeclaration_refines he
  · exact ih.statement

theorem statement_succ (h : n ≤ m) :
    Refines (Parse.statement (n + 1)) (Parse.statement (m + 1)) := by
  have he := expressionsRefine h
  unfold Parse.statement
  refine .bind .current fun t => ?_
  split
  · exact ih.forStatement
  · exact ih.ifStatement
  · exact printStatement_refines he
  · exact returnStatement_refines he
  · exact ih.whileStatement
  · exact .bind .advance fun _ => .bind ih.blockBody fun _ => .pure _
  · exact expressionStatement_refines he

theorem blockBody_succ :
    Refines (Parse.blockBody (n + 1)) (Parse.blockBody (m + 1)) := by
  refine .bind (.sees _) fun _ => .bind .atEnd fun _ => .ite _ ?_ ?_
  · exact .bind (.expect _ _) fun _ => .pure _
  · exact .bind ih.declaration fun _ => .bind ih.blockBody fun _ => .pure _

theorem function_succ (h : n ≤ m) :
    Refines (Parse.function (n + 1)) (Parse.function (m + 1)) := by
  exact .bind .advance fun _ => .bind (.declaredName _) fun _ => .bind (.expect _ _) fun _ =>
    .bind (parameters_refines h) fun _ => .bind (.expect _ _) fun _ =>
      .bind ih.blockBody fun _ => .pure _

theorem forStatement_succ (h : n ≤ m) :
    Refines (Parse.forStatement (n + 1)) (Parse.forStatement (m + 1)) := by
  have he := expressionsRefine h
  exact .bind .advance fun _ => .bind (.expect _ _) fun _ =>
    .bind (forInitial_refines he) fun _ => .bind (forCondition_refines he) fun _ =>
      .bind (forUpdate_refines he) fun _ => .bind ih.statement fun _ => .pure _

theorem ifStatement_succ (h : n ≤ m) :
    Refines (Parse.ifStatement (n + 1)) (Parse.ifStatement (m + 1)) := by
  have he := expressionsRefine h
  refine .bind .advance fun _ => .bind (.expect _ _) fun _ => .bind he.expression fun _ =>
    .bind (.expect _ _) fun _ => .bind ih.statement fun _ => .bind (.eat _) fun b =>
      .ite b ?_ (.pure _)
  exact .bind ih.statement fun _ => .pure _

theorem whileStatement_succ (h : n ≤ m) :
    Refines (Parse.whileStatement (n + 1)) (Parse.whileStatement (m + 1)) := by
  have he := expressionsRefine h
  exact .bind .advance fun _ => .bind (.expect _ _) fun _ => .bind he.expression fun _ =>
    .bind (.expect _ _) fun _ => .bind ih.statement fun _ => .pure _

end StatementsRefine

theorem statementsRefine {n m : Nat} (h : n ≤ m) : StatementsRefine n m := by
  induction n generalizing m with
  | zero =>
    constructor <;> exact .cutOff _
  | succ n ih =>
    obtain ⟨m, rfl⟩ : ∃ k, m = k + 1 := ⟨m - 1, by omega⟩
    have hle : n ≤ m := by omega
    have ih := ih hle
    exact ⟨ih.declaration_succ hle, ih.statement_succ hle, ih.blockBody_succ, ih.function_succ hle,
      ih.forStatement_succ hle, ih.ifStatement_succ hle, ih.whileStatement_succ hle⟩

end Parse

end Lox
