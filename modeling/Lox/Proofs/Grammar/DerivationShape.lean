-- SUMMARY: The shape of what the grammar derives, and the tokens it starts with.
import Lox.Proofs.Grammar.Shape

/-!
## Shape of derivable phrases

Expressions are plain, simple statements are plain up to their semicolon, and every declaration is
whole. The first token of a phrase tells which one it is.
-/

namespace Lox

open BracketSort

namespace Grammar

-- ---------------------------------------------------------------------------
-- Expressions
-- ---------------------------------------------------------------------------

theorem Joins.plain {level t l r e} (h : Joins level t l r e) : Plain [t] := by
  cases h with
  | or h | and h | equal h | notEqual h | less h | lessEqual h | greater h | greaterEqual h
  | add h | sub h | mul h | div h => exact .single h

theorem Prefixes.plain {t operand e} (h : Prefixes t operand e) : Plain [t] := by
  cases h with
  | not h | neg h => exact .single h

theorem Leaf.plain {t e} (h : Leaf t e) : Plain [t] := by
  cases h with
  | true h | false h | nil h | number h | string h | name h => exact .single h

mutual

theorem Phrase.plain {r w e} : Phrase r w e → Plain w
  | .loosen _ h => h.plain
  | .assign ht heq hv => ht.plain.append (.append (.single heq) hv.plain)
  | .join _ hl hv hop => hl.plain.append (.append hop.plain hv.plain)
  | .unary h hop => hop.plain.append h.plain
  | .callNone h ho hc => h.plain.append (Plain.nil.in_parens ho hc)
  | .call h ho ha hc => h.plain.append (ha.plain.in_parens ho hc)
  | .property h hd hn => h.plain.append (.append (.single hd) (.single hn))
  | .leaf h => h.plain
  | .parens ho h hc => h.plain.in_parens ho hc

theorem ArgumentList.plain {w es} : ArgumentList w es → Plain w
  | .one h => h.plain
  | .more h hc hv => h.plain.append (.append (.single hc) hv.plain)

end

/-- The kinds that an expression can start with. -/
def startsExpression : Kind → Bool
  | .kwTrue | .kwFalse | .kwNil | .number | .string | .identifier | .leftParen | .bang | .minus =>
    true
  | _ => false

/-- There is a first token, and its kind is among those of `p`. -/
def StartsWith (p : Kind → Bool) (w : List Token) : Prop :=
  ∃ t v, w = t :: v ∧ p t.kind = true

theorem StartsWith.append {p : Kind → Bool} {u : List Token} (h : StartsWith p u)
    (v : List Token) : StartsWith p (u ++ v) := by
  obtain ⟨t, u, rfl, hk⟩ := h
  exact ⟨t, u ++ v, rfl, hk⟩

theorem StartsWith.mono {p q : Kind → Bool} {w : List Token} (h : StartsWith p w)
    (hpq : ∀ k, p k = true → q k = true) : StartsWith q w := by
  obtain ⟨t, v, rfl, hk⟩ := h
  exact ⟨t, v, rfl, hpq _ hk⟩

theorem StartsWith.length_pos {p : Kind → Bool} {w : List Token} (h : StartsWith p w) :
    0 < w.length := by
  obtain ⟨t, u, rfl, _⟩ := h
  simp

theorem StartsWith.current {p : Kind → Bool} {w : List Token} {c d : Cursor}
    (h : StartsWith p w) (hw : c.Takes w d) : p c.current.kind = true := by
  obtain ⟨t, v, rfl, ht⟩ := h
  rwa [hw.current_of_cons]

theorem StartsWith.current_ne {p : Kind → Bool} {w : List Token} {c d : Cursor} {k : Kind}
    (h : StartsWith p w) (hw : c.Takes w d) (hk : p k = false) : c.current.kind ≠ k := by
  rintro rfl
  rw [h.current hw] at hk
  cases hk

theorem Leaf.first {t e} (h : Leaf t e) : StartsWith startsExpression [t] := by
  refine ⟨t, [], rfl, ?_⟩
  cases h with
  | true h | false h | nil h | number h | string h | name h => rw [h]; rfl

theorem Prefixes.first {t operand e} (h : Prefixes t operand e) :
    StartsWith startsExpression [t] := by
  refine ⟨t, [], rfl, ?_⟩
  cases h with
  | not h | neg h => rw [h]; rfl

theorem Phrase.first {r w e} : Phrase r w e → StartsWith startsExpression w
  | .loosen _ h => h.first
  | .assign ht _ _ => ht.first.append _
  | .join _ hl _ _ => hl.first.append _
  | .unary _ hop => hop.first.append _
  | .callNone h _ _ => h.first.append _
  | .call h _ _ _ => h.first.append _
  | .property h _ _ => h.first.append _
  | .leaf h => h.first
  | .parens ho _ _ => ⟨_, _, rfl, by rw [ho]; rfl⟩

theorem ArgumentList.first {w es} (h : ArgumentList w es) : StartsWith startsExpression w := by
  cases h with
  | one h => exact h.first
  | more h => exact h.first.append _

/-- The kinds that a call can start with. -/
def startsCall : Kind → Bool
  | .bang | .minus => false
  | k => startsExpression k

theorem Leaf.first_of_call {t e} (h : Leaf t e) : StartsWith startsCall [t] := by
  refine ⟨t, [], rfl, ?_⟩
  cases h with
  | true h | false h | nil h | number h | string h | name h => rw [h]; rfl

theorem Phrase.first_of_call {r w e} (hr : r = .call ∨ r = .primary) :
    Phrase r w e → StartsWith startsCall w
  | .loosen hr' h =>
    h.first_of_call (by rcases hr with rfl | rfl <;> cases hr'; exact .inr rfl)
  | .assign .. | .join .. | .unary .. => by simp at hr
  | .callNone h _ _ => (h.first_of_call (.inl rfl)).append _
  | .call h _ _ _ => (h.first_of_call (.inl rfl)).append _
  | .property h _ _ => (h.first_of_call (.inl rfl)).append _
  | .leaf h => h.first_of_call
  | .parens ho _ _ => ⟨_, _, rfl, by rw [ho]; rfl⟩


-- ---------------------------------------------------------------------------
-- Simple statements and heads
-- ---------------------------------------------------------------------------

theorem VarDeclaration.simple {w s} (h : VarDeclaration w s) : Simple w := by
  cases h with
  | @assigned start name equal w _ _ hs hn heq h hc =>
    have hlead : Plain [start, name, equal] :=
      (Plain.single hs).append ((Plain.single hn).append (.single heq))
    exact (Simple.of_plain h.plain hc).after hlead
  | @given start name _ _ _ hs hn h hc =>
    have hlead : Plain [start, name] := (Plain.single hs).append (.single hn)
    exact (Simple.of_plain h.plain hc).after hlead
  | @bare start name _ hs hn hc =>
    have hlead : Plain [start, name] := (Plain.single hs).append (.single hn)
    exact .of_plain hlead hc

theorem ExpressionStatement.simple {w s} (h : ExpressionStatement w s) : Simple w := by
  cases h with
  | mk h hc => exact .of_plain h.plain hc

theorem ForInitial.simple {w initial} (h : ForInitial w initial) : Simple w := by
  cases h with
  | none hc => exact .of_plain Plain.nil hc
  | var h => exact h.simple
  | expression h => exact h.simple

theorem ForCondition.simple {w condition} (h : ForCondition w condition) : Simple w := by
  cases h with
  | none hc => exact .of_plain Plain.nil hc
  | some h hc => exact .of_plain h.plain hc

theorem ForUpdate.plain {w update} (h : ForUpdate w update) : Plain w := by
  cases h with
  | none => exact Plain.nil
  | some h => exact h.plain

theorem ParameterList.plain {w names} (h : ParameterList w names) : Plain w := by
  induction h with
  | one h => exact .single h
  | more h hc _ ih => exact (Plain.single h).append ((Plain.single hc).append ih)

theorem Parameters.plain {w names} (h : Parameters w names) : Plain w := by
  cases h with
  | none => exact Plain.nil
  | some h => exact h.plain

theorem Guard.plain {keyword w condition line} (h : Guard keyword w condition line)
    (hk : keyword.isPlain = true) : Plain w := by
  cases h with
  | mk hs ho h hc => exact (Plain.single hs hk).append (h.plain.in_parens ho hc)

theorem FunctionHead.plain {w name names line} (h : FunctionHead w name names line) : Plain w := by
  cases h with
  | mk hs hn ho h hc =>
    exact (Plain.single hs).append ((Plain.single hn).append (h.plain.in_parens ho hc))

/-- The clauses of a `for` hold no braces, and their semicolons stand between its parentheses. -/
theorem ForHeader.lead {w initial condition update line}
    (h : ForHeader w initial condition update line) : Lead w ∧ Proper w := by
  cases h with
  | @mk start opening i _ c _ u _ closing hs ho hi h hu hc =>
    have hproper : Proper (i ++ (c ++ u)) :=
      proper_append.2 ⟨hi.simple.whole.proper,
        proper_append.2 ⟨h.simple.whole.proper, hu.plain.inline.proper⟩⟩
    have habsent : braces.Absent (i ++ (c ++ u)) :=
      hi.simple.braces_absent.append (h.simple.braces_absent.append hu.plain.inline.braces_absent)
    have hparens : parens.Balanced (i ++ (c ++ u)) :=
      hi.simple.whole.parens.append (h.simple.whole.parens.append hu.plain.parens)
    have heq : start :: opening :: (i ++ (c ++ (u ++ [closing])))
        = [start] ++ opening :: ((i ++ (c ++ u)) ++ [closing]) := by simp
    rw [heq]
    refine ⟨(Plain.single hs).lead.append (.in_parens ho habsent hparens hc), ?_⟩
    simp only [List.cons_append, List.nil_append, proper_cons, proper_append] at hproper ⊢
    simp [hs, ho, hc, hproper]


-- ---------------------------------------------------------------------------
-- Statements
-- ---------------------------------------------------------------------------

mutual

theorem Statement.whole {w next s} : Statement w next s → Whole w
  | .expression h => h.simple.whole
  | .print hs h hc => ((Simple.of_plain h.plain hc).after (.single hs)).whole
  | .returnNothing hs hc => ((Simple.of_plain Plain.nil hc).after (.single hs)).whole
  | .returnValue hs h hc => ((Simple.of_plain h.plain hc).after (.single hs)).whole
  | .block ho h hc => .block ho h.proper h.braces h.parens hc
  | .ifOnly hu hv _ => hv.whole.after (hu.plain rfl).lead (hu.plain rfl).inline.proper
  | .ifElse hu hv ho hw =>
    (hv.whole.append_else ho hw.whole).after (hu.plain rfl).lead (hu.plain rfl).inline.proper
  | .whileLoop hu hv => hv.whole.after (hu.plain rfl).lead (hu.plain rfl).inline.proper
  | .forLoop hu hv _ => hv.whole.after hu.lead.1 hu.lead.2

theorem Declaration.whole {w next s} : Declaration w next s → Whole w
  | .var h => h.simple.whole
  | .function hu ho h hc =>
    (Whole.block ho h.proper h.braces h.parens hc).after hu.plain.lead hu.plain.inline.proper
  | .statement h => h.whole

theorem Declarations.proper {w next ss} : Declarations w next ss → Proper w
  | .nil => proper_nil
  | .cons h hv => proper_append.2 ⟨h.whole.proper, hv.proper⟩

theorem Declarations.braces {w next ss} : Declarations w next ss → braces.Balanced w
  | .nil => Balanced.nil
  | .cons h hv => h.whole.braces.append hv.braces

theorem Declarations.parens {w next ss} : Declarations w next ss → parens.Balanced w
  | .nil => Balanced.nil
  | .cons h hv => h.whole.parens.append hv.parens

end

/-- The kinds that a statement can start with. -/
def startsSentence : Kind → Bool
  | .kwFor | .kwIf | .kwPrint | .kwReturn | .kwWhile | .leftBrace => true
  | k => startsExpression k

/-- The kinds that a declaration can start with. -/
def startsDeclaration : Kind → Bool
  | .kwFun | .kwVar => true
  | k => startsSentence k

theorem startsSentence_of_startsExpression (k : Kind) (h : startsExpression k = true) :
    startsSentence k = true := by
  cases k <;> first | rfl | cases h

theorem startsDeclaration_of_startsSentence (k : Kind) (h : startsSentence k = true) :
    startsDeclaration k = true := by
  cases k <;> first | rfl | cases h

theorem VarDeclaration.first {w s} (h : VarDeclaration w s) :
    StartsWith (fun k => k == .kwVar) w := by
  cases h with
  | assigned hs | given hs | bare hs => exact ⟨_, _, rfl, by simp [hs]⟩

theorem ExpressionStatement.first {w s} (h : ExpressionStatement w s) :
    StartsWith startsExpression w := by
  cases h with
  | mk h => exact h.first.append _

theorem Guard.first {keyword w condition line} (h : Guard keyword w condition line) :
    StartsWith (fun k => k == keyword) w := by
  cases h with
  | mk hs => exact ⟨_, _, rfl, by simp [hs]⟩

theorem ForHeader.first {w initial condition update line}
    (h : ForHeader w initial condition update line) : StartsWith (fun k => k == .kwFor) w := by
  cases h with
  | mk hs => exact ⟨_, _, rfl, by simp [hs]⟩

theorem FunctionHead.first {w name names line} (h : FunctionHead w name names line) :
    StartsWith (fun k => k == .kwFun) w := by
  cases h with
  | mk hs => exact ⟨_, _, rfl, by simp [hs]⟩

theorem Statement.first {w next s} (h : Statement w next s) : StartsWith startsSentence w := by
  cases h with
  | expression h => exact h.first.mono startsSentence_of_startsExpression
  | print hs | returnNothing hs | returnValue hs | block hs => exact ⟨_, _, rfl, by rw [hs]; rfl⟩
  | ifOnly hu | ifElse hu | whileLoop hu | forLoop hu =>
    exact (hu.first.append _).mono fun k hk => by rw [eq_of_beq hk]; rfl

theorem Declaration.first {w next s} (h : Declaration w next s) :
    StartsWith startsDeclaration w := by
  cases h with
  | var h => exact h.first.mono fun k hk => by rw [eq_of_beq hk]; rfl
  | function hu => exact (hu.first.append _).mono fun k hk => by rw [eq_of_beq hk]; rfl
  | statement h => exact h.first.mono startsDeclaration_of_startsSentence

/-- The token after a statement matters only if it is `else`. -/
theorem Statement.before {w next next' s} (h' : next' ≠ .kwElse) :
    Statement w next s → Statement w next' s
  | .expression h => .expression h
  | .print hs h hc => .print hs h hc
  | .returnNothing hs hc => .returnNothing hs hc
  | .returnValue hs h hc => .returnValue hs h hc
  | .block ho h hc => .block ho h hc
  | .ifOnly hu hv _ => .ifOnly hu (hv.before h') h'
  | .ifElse hu hv ho hw => .ifElse hu hv ho (hw.before h')
  | .whileLoop hu hv => .whileLoop hu (hv.before h')
  | .forLoop hu hv htree => .forLoop hu (hv.before h') htree

theorem Declaration.before {w next next' s} (h' : next' ≠ .kwElse) (h : Declaration w next s) :
    Declaration w next' s := by
  cases h with
  | var h => exact .var h
  | function hu ho h hc => exact .function hu ho h hc
  | statement h => exact .statement (h.before h')

/-- No declaration starts with `else`, so only the last of several can end before one. -/
theorem Declarations.before {w next next' ss} (h' : next' ≠ .kwElse)
    (h : Declarations w next ss) : Declarations w next' ss := by
  induction ss generalizing w with
  | nil => cases h with | nil => exact .nil
  | cons s ss ih =>
    cases h with
    | @cons w v _ _ _ h hv =>
      refine .cons ?_ (ih hv)
      cases v with
      | nil => exact h.before h'
      | cons t v => exact h

end Grammar

end Lox
