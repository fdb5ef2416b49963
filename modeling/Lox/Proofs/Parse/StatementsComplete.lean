-- SUMMARY: Every statement and declaration that the grammar derives is read.
import Lox.Proofs.Parse.ExpressionsComplete

/-!
## Reading statements

The first token of a statement tells the parser which one it is. Where a clause may be left out, the
first token tells whether it was.
-/

namespace Lox

open Grammar

namespace Parse

variable {α : Type} {u v w : List Token} {e : Expr} {s : Stmt} {a : α} {c d m : Cursor}
  {opening closing : Token} {kind : Kind} {expected : String}

-- ---------------------------------------------------------------------------
-- Simple statements
-- ---------------------------------------------------------------------------

/-- An expression with the token that has to follow it. -/
theorem expression_then {g : Nat → Expr → Token → Parse α} (h : Phrase .assignment w e)
    (hw : c.Takes (w ++ [closing]) m) (hc : closing.kind = kind)
    (hk : goesOn .assignment kind = false) (hg : Yields (fun n => g n e closing) m a d) :
    Yields (fun n => expression n >>= fun e => Parse.expect kind expected >>= g n e) c a d := by
  obtain ⟨m₁, hm₁, hm⟩ := hw.split
  exact .bind (expression_yields h hm₁ (by rw [hm.current_of_cons, hc, hk])) (.expect hc hm hg)

theorem expressionStatement_yields (h : ExpressionStatement w s) (hw : c.Takes w d) :
    Yields expressionStatement c s d := by
  cases h with
  | mk h hc => exact expression_then h hw hc rfl (.pure _ d)

theorem varDeclaration_yields (h : VarDeclaration w s) (hw : c.Takes w d) :
    Yields varDeclaration c s d := by
  cases h with
  | @assigned start name equal v e semicolon hs hn heq h hc =>
    obtain ⟨m₁, hm₁, hw⟩ := hw.split_cons
    obtain ⟨m₂, hm₂, hw⟩ := hw.split_cons
    obtain ⟨m₃, hm₃, hw⟩ := hw.split_cons
    obtain ⟨m₄, hm₄, hw⟩ := hw.split
    have hinitial : Yields (fun n => initialValue n (declared name)) m₂ e m₄ :=
      .eat heq hm₃ (expression_yields h hm₄ (by rw [hw.current_of_cons, hc]; rfl))
    exact .advance hm₁ (.declaredName hn hm₂ (.bind hinitial (.expect hc hw (.pure _ d))))
  | @given start name v e semicolon hs hn h hc =>
    obtain ⟨m₁, hm₁, hw⟩ := hw.split_cons
    obtain ⟨m₂, hm₂, hw⟩ := hw.split_cons
    obtain ⟨m₃, hm₃, hw⟩ := hw.split
    have hinitial : Yields (fun n => initialValue n (declared name)) m₂ e m₃ :=
      .eat_not (h.first.current_ne hm₃ rfl) (.sees_not (h.first.current_ne hm₃ rfl)
        (expression_yields h hm₃ (by rw [hw.current_of_cons, hc]; rfl)))
    exact .advance hm₁ (.declaredName hn hm₂ (.bind hinitial (.expect hc hw (.pure _ d))))
  | @bare start name semicolon hs hn hc =>
    obtain ⟨m₁, hm₁, hw⟩ := hw.split_cons
    obtain ⟨m₂, hm₂, hw⟩ := hw.split_cons
    have hk : m₂.current.kind = .semicolon := by rw [hw.current_of_cons, hc]
    have hinitial : Yields (fun n => initialValue n (declared name)) m₂
        (.literal .nil name.line) m₂ :=
      .eat_not (by simp [hk]) (.sees hk (.pure _ m₂))
    exact .advance hm₁ (.declaredName hn hm₂ (.bind hinitial (.expect hc hw (.pure _ d))))


-- ---------------------------------------------------------------------------
-- Clauses and parameters
-- ---------------------------------------------------------------------------

theorem forInitial_yields {initial : Option Stmt} (h : ForInitial w initial) (hw : c.Takes w d) :
    Yields forInitial c initial d := by
  refine .current ?_
  cases h with
  | none hc =>
    rw [hw.current_of_cons, hc]
    exact .advance hw (.pure _ d)
  | var h =>
    rw [eq_of_beq (h.first.current hw)]
    exact .bind (varDeclaration_yields h hw) (.pure _ d)
  | expression h =>
    split
    · next hk => exact absurd hk (h.first.current_ne hw rfl)
    · next hk => exact absurd hk (h.first.current_ne hw rfl)
    · exact .bind (expressionStatement_yields h hw) (.pure _ d)

theorem forCondition_yields {condition : Expr} (h : ForCondition w condition)
    (hw : c.Takes w d) : Yields forCondition c condition d := by
  refine .current ?_
  cases h with
  | none hc =>
    rw [hw.current_of_cons]
    split
    · exact .expect hc hw (.pure _ d)
    · next hk => exact absurd hc hk
  | some h hc =>
    split
    · next hk => exact absurd hk ((h.first.append _).current_ne hw rfl)
    · exact expression_then h hw hc rfl (.pure _ d)

/-- The third clause with the closing parenthesis. -/
theorem forUpdate_yields {update : Option Expr} (h : ForUpdate w update)
    (hw : c.Takes (w ++ [closing]) d) (hc : closing.kind = .rightParen) :
    Yields forUpdate c update d := by
  obtain ⟨m, hm, hd⟩ := hw.split
  have hk : m.current.kind = .rightParen := by rw [hd.current_of_cons, hc]
  cases h with
  | none =>
    rw [hm.current_of_nil] at hk hd
    exact .sees hk (.expect hc hd (.pure _ d))
  | some h =>
    have hyields := expression_yields h hm (by rw [hk]; rfl)
    exact .sees_not (h.first.current_ne hm rfl)
      (.bind (.bind hyields (.pure _ m)) (.expect hc hd (.pure _ d)))

theorem parameterList_yields {names : List Name} (h : ParameterList w names) (hw : c.Takes w d)
    (hd : d.current.kind = .rightParen) : Yields parameterList c names d := by
  induction h generalizing c with
  | one h =>
    refine .succ (.declaredName h hw (.eat_not (by simp [hd]) ?_))
    exact .pure _ d
  | @more t comma w names h hc _ ih =>
    obtain ⟨m₁, hm₁, hw⟩ := hw.split_cons
    obtain ⟨m₂, hm₂, hw⟩ := hw.split_cons
    refine .succ (.declaredName h hm₁ (.eat hc hm₂ ?_))
    exact .bind (ih hw) (.pure _ d)

theorem parameters_yields {names : List Name} (h : Parameters w names)
    (hw : c.Takes (w ++ [closing]) d) (hc : closing.kind = .rightParen) :
    Yields parameters c names d := by
  obtain ⟨m, hm, hd⟩ := hw.split
  have hk : m.current.kind = .rightParen := by rw [hd.current_of_cons, hc]
  cases h with
  | none =>
    rw [hm.current_of_nil] at hk hd
    exact .sees hk (.expect hc hd (.pure _ d))
  | some h =>
    have hfirst : c.current.kind = .identifier := by
      cases h with
      | one h | more h => rw [hm.current_of_cons, h]
    exact .sees_not (by simp [hfirst])
      (.bind (parameterList_yields h hm hk) (.expect hc hd (.pure _ d)))


-- ---------------------------------------------------------------------------
-- Statements
-- ---------------------------------------------------------------------------

/-- The common beginning of `if` and `while`. -/
theorem guard_yields {keyword : Kind} {f : Nat → Token → Expr → Parse α} {before after : String}
    {condition : Expr} {line : Nat} (h : Guard keyword u condition line) (hu : c.Takes u m)
    (hf : ∀ start : Token, start.line = line → Yields (fun n => f n start condition) m a d) :
    Yields (fun n => do
      let start ← advance
      let _ ← expect .leftParen before
      let condition ← expression n
      let _ ← expect .rightParen after
      f n start condition) c a d := by
  cases h with
  | @mk start opening v _ closing hs ho h hc =>
    obtain ⟨m₁, hm₁, hu⟩ := hu.split_cons
    obtain ⟨m₂, hm₂, hu⟩ := hu.split_cons
    exact .advance hm₁ (.expect ho hm₂ (expression_then h hu hc rfl (hf start rfl)))

/-- Before a token of the kind `next`, the tokens `w` are read as `s`. -/
def AcceptsStatement (w : List Token) (next : Kind) (s : Stmt) : Prop :=
  ∀ c d, c.Takes w d → d.current.kind = next → Yields statement c s d

def AcceptsDeclaration (w : List Token) (next : Kind) (s : Stmt) : Prop :=
  ∀ c d, c.Takes w d → d.current.kind = next → Yields declaration c s d

/-- Before a closing brace, the tokens `w` are read as the statements `ss`. -/
def AcceptsBody (w : List Token) (ss : List Stmt) : Prop :=
  ∀ (closing : Token) (c d : Cursor),
    closing.kind = .rightBrace → c.Takes (w ++ [closing]) d → Yields blockBody c ss d

section

variable {next : Kind} {ss : List Stmt} {start other : Token} {condition : Expr} {line : Nat}
  {yes no body : Stmt}

/-- The kind of the first token tells which function reads the statement. -/
theorem statement_yields (hk : c.current.kind = kind)
    (h : Yields (fun n =>
      match kind with
      | .kwFor => forStatement n
      | .kwIf => ifStatement n
      | .kwPrint => printStatement n
      | .kwReturn => returnStatement n
      | .kwWhile => whileStatement n
      | .leftBrace => do
        let start ← advance
        let body ← blockBody n
        return .block body start.line
      | _ => expressionStatement n) c s d) : Yields statement c s d := by
  subst hk
  refine .succ ?_
  simp only [statement]
  exact .current h

theorem AcceptsStatement.of_expression (h : ExpressionStatement w s) :
    AcceptsStatement w next s := by
  intro c d hw _
  have hfirst := h.first
  apply statement_yields rfl
  split
  · next hk => exact absurd hk (hfirst.current_ne hw rfl)
  · next hk => exact absurd hk (hfirst.current_ne hw rfl)
  · next hk => exact absurd hk (hfirst.current_ne hw rfl)
  · next hk => exact absurd hk (hfirst.current_ne hw rfl)
  · next hk => exact absurd hk (hfirst.current_ne hw rfl)
  · next hk => exact absurd hk (hfirst.current_ne hw rfl)
  · exact expressionStatement_yields h hw

theorem AcceptsStatement.print {semicolon : Token} (hs : start.kind = .kwPrint)
    (h : Phrase .assignment w e) (hc : semicolon.kind = .semicolon) :
    AcceptsStatement (start :: (w ++ [semicolon])) next (.print e start.line) := by
  intro c d hw _
  obtain ⟨m, hm, hd⟩ := hw.split_cons
  apply statement_yields (hm.current_of_cons ▸ hs)
  exact .advance hm (expression_then h hd hc rfl (.pure _ d))

theorem AcceptsStatement.returnNothing {semicolon : Token} (hs : start.kind = .kwReturn)
    (hc : semicolon.kind = .semicolon) :
    AcceptsStatement [start, semicolon] next (.ret (.literal .nil start.line) start.line) := by
  intro c d hw _
  obtain ⟨m, hm, hd⟩ := hw.split_cons
  apply statement_yields (hm.current_of_cons ▸ hs)
  refine .advance hm (.sees (by rw [hd.current_of_cons, hc]) ?_)
  exact .expect hc hd (.pure _ d)

theorem AcceptsStatement.returnValue {semicolon : Token} (hs : start.kind = .kwReturn)
    (h : Phrase .assignment w e) (hc : semicolon.kind = .semicolon) :
    AcceptsStatement (start :: (w ++ [semicolon])) next (.ret e start.line) := by
  intro c d hw _
  obtain ⟨m, hm, hd⟩ := hw.split_cons
  apply statement_yields (hm.current_of_cons ▸ hs)
  refine .advance hm (.sees_not ((h.first.append _).current_ne hd rfl) ?_)
  exact expression_then h hd hc rfl (.pure _ d)

theorem AcceptsStatement.block (ho : opening.kind = .leftBrace) (h : AcceptsBody w ss)
    (hc : closing.kind = .rightBrace) :
    AcceptsStatement (opening :: (w ++ [closing])) next (.block ss opening.line) := by
  intro c d hw _
  obtain ⟨m, hm, hd⟩ := hw.split_cons
  apply statement_yields (hm.current_of_cons ▸ ho)
  exact .advance hm (.bind (h closing m d hc hd) (.pure _ d))

theorem AcceptsStatement.ifOnly (hu : Guard .kwIf u condition line)
    (hv : AcceptsStatement v next yes) (hnext : next ≠ .kwElse) :
    AcceptsStatement (u ++ v) next (.branch condition yes none line) := by
  intro c d hw hd
  obtain ⟨m, hm, hmd⟩ := hw.split
  refine statement_yields (eq_of_beq (hu.first.current hm)) (.succ ?_)
  simp only [ifStatement]
  refine guard_yields hu hm fun start hstart => ?_
  refine .bind (hv m d hmd hd) (.eat_not (hd ▸ hnext) ?_)
  rw [hstart]
  exact .pure _ d

theorem AcceptsStatement.ifElse (hu : Guard .kwIf u condition line)
    (hv : AcceptsStatement v .kwElse yes) (ho : other.kind = .kwElse)
    (hw : AcceptsStatement w next no) :
    AcceptsStatement (u ++ (v ++ other :: w)) next (.branch condition yes (some no) line) := by
  intro c d htakes hd
  obtain ⟨m, hm, htakes⟩ := htakes.split
  obtain ⟨m₁, hm₁, htakes⟩ := htakes.split
  obtain ⟨m₂, hm₂, hmd⟩ := htakes.split_cons
  refine statement_yields (eq_of_beq (hu.first.current hm)) (.succ ?_)
  simp only [ifStatement]
  refine guard_yields hu hm fun start hstart => ?_
  refine .bind (hv m m₁ hm₁ (hm₂.current_of_cons ▸ ho)) (.eat ho hm₂ ?_)
  rw [← hstart]
  exact .bind (hw m₂ d hmd hd) (.pure _ d)

theorem AcceptsStatement.whileLoop (hu : Guard .kwWhile u condition line)
    (hv : AcceptsStatement v next body) :
    AcceptsStatement (u ++ v) next (.loop condition body line) := by
  intro c d hw hd
  obtain ⟨m, hm, hmd⟩ := hw.split
  refine statement_yields (eq_of_beq (hu.first.current hm)) (.succ ?_)
  simp only [whileStatement]
  refine guard_yields hu hm fun start hstart => ?_
  rw [← hstart]
  exact .bind (hv m d hmd hd) (.pure _ d)

theorem AcceptsStatement.forLoop {initial : Option Stmt} {update : Option Expr}
    (hu : ForHeader u initial condition update line) (hv : AcceptsStatement v next body) :
    AcceptsStatement (u ++ v) next (.forLoop initial condition update body line) := by
  intro c d hw hd
  obtain ⟨m, hm, hmd⟩ := hw.split
  refine statement_yields (eq_of_beq (hu.first.current hm)) (.succ ?_)
  simp only [forStatement]
  cases hu with
  | @mk start opening _ _ _ _ _ _ closing hs ho hi h hu hc =>
    obtain ⟨m₁, hm₁, hm⟩ := hm.split_cons
    obtain ⟨m₂, hm₂, hm⟩ := hm.split_cons
    obtain ⟨m₃, hm₃, hm⟩ := hm.split
    obtain ⟨m₄, hm₄, hm⟩ := hm.split
    refine .advance hm₁ (.expect ho hm₂ (.bind (forInitial_yields hi hm₃) ?_))
    refine .bind (forCondition_yields h hm₄) (.bind (forUpdate_yields hu hm hc) ?_)
    exact .bind (hv m d hmd hd) (.pure _ d)

theorem AcceptsDeclaration.of_statement (hfirst : StartsWith startsSentence w)
    (h : AcceptsStatement w next s) : AcceptsDeclaration w next s := by
  intro c d hw hd
  refine .succ ?_
  simp only [declaration]
  refine .current ?_
  split
  · next hk => exact absurd hk (hfirst.current_ne hw rfl)
  · next hk => exact absurd hk (hfirst.current_ne hw rfl)
  · exact h c d hw hd

theorem AcceptsDeclaration.of_var (h : VarDeclaration w s) : AcceptsDeclaration w next s := by
  intro c d hw _
  refine .succ ?_
  simp only [declaration]
  refine .current ?_
  rw [eq_of_beq (h.first.current hw)]
  exact varDeclaration_yields h hw

theorem AcceptsDeclaration.function {name : Name} {names : List Name}
    (hu : FunctionHead u name names line) (ho : opening.kind = .leftBrace) (h : AcceptsBody w ss)
    (hc : closing.kind = .rightBrace) :
    AcceptsDeclaration (u ++ opening :: (w ++ [closing])) next (.func name names ss line) := by
  intro c d hw _
  refine .succ ?_
  simp only [declaration]
  refine .current ?_
  rw [eq_of_beq ((hu.first.append _).current hw)]
  obtain ⟨m, hm, hw⟩ := hw.split
  obtain ⟨m₁, hm₁, hd⟩ := hw.split_cons
  refine .succ ?_
  unfold Parse.function
  cases hu with
  | @mk start name opening' _ _ closing' hs hn ho' h' hc' =>
    obtain ⟨k₁, hk₁, hm⟩ := hm.split_cons
    obtain ⟨k₂, hk₂, hm⟩ := hm.split_cons
    obtain ⟨k₃, hk₃, hm⟩ := hm.split_cons
    refine .advance hk₁ (.declaredName hn hk₂ (.expect ho' hk₃ ?_))
    refine .bind (parameters_yields h' hm hc') (.expect ho hm₁ ?_)
    exact .bind (h closing m₁ d hc hd) (.pure _ d)

theorem AcceptsBody.nil : AcceptsBody [] [] := by
  intro closing c d hc hw
  refine .succ ?_
  simp only [blockBody]
  refine .sees (by rw [hw.current_of_cons, hc]) (.atEnd ?_)
  exact .expect hc hw (.pure _ d)

theorem AcceptsBody.cons (hfirst : StartsWith startsDeclaration w)
    (h : AcceptsDeclaration w (firstKind v .rightBrace) s) (hv : AcceptsBody v ss) :
    AcceptsBody (w ++ v) (s :: ss) := by
  intro closing c d hc hw
  rw [List.append_assoc] at hw
  obtain ⟨m, hm, hd⟩ := hw.split
  have hnext : m.current.kind = firstKind v .rightBrace := by
    rw [hd.current_kind, firstKind_append, ← hc]
    rfl
  have hend : c.atEnd = false := Cursor.atEnd_eq_false_iff.2 (hfirst.current_ne hm rfl)
  refine .succ ?_
  simp only [blockBody]
  refine .sees_not (hfirst.current_ne hm rfl) (.atEnd ?_)
  rw [hend]
  exact .bind (h c m hm hnext) (.bind (hv closing m d hc hd) (.pure _ d))

mutual

theorem accepts_of_statement {w next s} : Statement w next s → AcceptsStatement w next s
  | .expression h => .of_expression h
  | .print hs h hc => .print hs h hc
  | .returnNothing hs hc => .returnNothing hs hc
  | .returnValue hs h hc => .returnValue hs h hc
  | .block ho h hc => .block ho (accepts_of_declarations rfl h) hc
  | .ifOnly hu hv hnext => .ifOnly hu (accepts_of_statement hv) hnext
  | .ifElse hu hv ho hw => .ifElse hu (accepts_of_statement hv) ho (accepts_of_statement hw)
  | .whileLoop hu hv => .whileLoop hu (accepts_of_statement hv)
  | .forLoop hu hv htree => forTree_iff.1 htree ▸ .forLoop hu (accepts_of_statement hv)

theorem accepts_of_declaration {w next s} : Declaration w next s → AcceptsDeclaration w next s
  | .var h => .of_var h
  | .function hu ho h hc => .function hu ho (accepts_of_declarations rfl h) hc
  | .statement h => .of_statement h.first (accepts_of_statement h)

theorem accepts_of_declarations {w next ss} (hnext : next = .rightBrace) :
    Declarations w next ss → AcceptsBody w ss
  | .nil => .nil
  | .cons h hv =>
    .cons h.first (hnext ▸ accepts_of_declaration h) (accepts_of_declarations hnext hv)

end

theorem declaration_yields (h : Declaration w next s) (hw : c.Takes w d)
    (hd : d.current.kind = next) : Yields declaration c s d :=
  accepts_of_declaration h c d hw hd

end

end Parse

end Lox
