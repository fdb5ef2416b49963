-- SUMMARY: Every declaration ends: with a derivation, or as a broken declaration.
import Lox.Proofs.Parse.Expressions

/-!
## Statements

The outcome of each function for statements and declarations. The functions that call no other
statement come first; the others follow by induction on the fuel.
-/

namespace Lox

open BracketSort Grammar

namespace Grammar

/-- What satisfies `P`, with the closing parenthesis. -/
inductive Closed {α : Type} (P : List Token → α → Prop) : List Token → α → Prop where
  | mk {v a} {closing : Token} (h : P v a) (hc : closing.kind = .rightParen) :
      Closed P (v ++ [closing]) a

/-- The value of a variable, with or without an equals sign, or none. -/
inductive InitialValue (name : Name) : List Token → Expr → Prop where
  | assigned {equal w e} (heq : equal.kind = .equal) (h : Phrase .assignment w e) :
      InitialValue name (equal :: w) e
  | given {w e} (h : Phrase .assignment w e) : InitialValue name w e
  | bare : InitialValue name [] (.literal .nil name.line)

theorem InitialValue.plain {name w e} (h : InitialValue name w e) : Plain w := by
  cases h with
  | assigned heq h => exact (Plain.single heq).append h.plain
  | given h => exact h.plain
  | bare => exact Plain.nil

end Grammar

namespace Parse

variable {n : Nat} {c : Cursor}

-- ---------------------------------------------------------------------------
-- Simple statements
-- ---------------------------------------------------------------------------

theorem expression_ends (hn : 16 * c.rest.length + 11 ≤ n) :
    Ends [] (expression n) c (fun e w _ => Phrase .assignment w e) Fragmentary :=
  (expressionsEnd n).expression c hn

theorem expressionStatement_ends (hn : 16 * c.rest.length + 11 ≤ n) :
    Ends [] (expressionStatement n) c (fun s w _ => ExpressionStatement w s) Fragmentary := by
  refine (expression_ends hn).bind (fun w hw => hw) fun value w m _ hvalue => ?_
  refine .expect hvalue.plain.fragmentary fun semicolon m₁ hsemicolon _ => .pure ?_
  exact .mk hvalue hsemicolon

theorem printStatement_ends (hc : c.current.kind = .kwPrint) (hn : 16 * c.rest.length + 11 ≤ n) :
    Ends [] (printStatement n) c (fun s w k => Statement w k s) Fragmentary := by
  refine .advance (by simp [hc]) fun start m hstart hm => ?_
  rw [hc] at hstart
  have hlen := hm.length_rest_one
  have hlead : Fragmentary [start] := (Plain.single hstart).fragmentary
  refine (expression_ends (by omega)).bind (fun v hv => hlead.append hv)
    fun value v m₁ _ hvalue => ?_
  refine .expect (hlead.append hvalue.plain.fragmentary)
    fun semicolon m₂ hsemicolon _ => .pure ?_
  exact .print hstart hvalue hsemicolon

theorem returnStatement_ends (hc : c.current.kind = .kwReturn)
    (hn : 16 * c.rest.length + 11 ≤ n) :
    Ends [] (returnStatement n) c (fun s w k => Statement w k s) Fragmentary := by
  simp only [returnStatement]
  refine .advance (by simp [hc]) fun start m hstart hm => ?_
  rw [hc] at hstart
  have hlen := hm.length_rest_one
  have hlead : Fragmentary [start] := (Plain.single hstart).fragmentary
  refine .sees (fun _ => ?_) fun _ => ?_
  · refine .expect hlead fun semicolon m₁ hsemicolon _ => .pure ?_
    exact .returnNothing hstart hsemicolon
  · refine (expression_ends (by omega)).bind (fun v hv => hlead.append hv)
      fun value v m₁ _ hvalue => ?_
    refine .expect (hlead.append hvalue.plain.fragmentary)
      fun semicolon m₂ hsemicolon _ => .pure ?_
    exact .returnValue hstart hvalue hsemicolon

theorem initialValue_ends {name : Name} (hn : 16 * c.rest.length + 11 ≤ n) :
    Ends [] (initialValue n name) c (fun e w _ => InitialValue name w e) Fragmentary := by
  simp only [initialValue]
  refine .eat (fun equal m hequal hm => ?_) fun _ => .sees (fun _ => ?_) fun _ => ?_
  · have hlen := hm.length_rest_one
    have hlead : Fragmentary [equal] := (Plain.single hequal).fragmentary
    exact (expression_ends (by omega)).last (fun v hv => hlead.append hv)
      fun e v _ he => .assigned hequal he
  · exact .pure .bare
  · exact (expression_ends hn).last (fun v hv => hv) fun e v _ he => .given he

theorem varDeclaration_ends (hc : c.current.kind = .kwVar) (hn : 16 * c.rest.length + 11 ≤ n) :
    Ends [] (varDeclaration n) c (fun s w _ => VarDeclaration w s) Fragmentary := by
  refine .advance (by simp [hc]) fun start m hstart hm => ?_
  rw [hc] at hstart
  have hlen := hm.length_rest_one
  refine .declaredName (Plain.single hstart).fragmentary fun name m₁ hname hm₁ => ?_
  have hlen₁ := hm₁.length_rest_one
  have hlead : Fragmentary [start, name] :=
    ((Plain.single hstart).append (.single hname)).fragmentary
  refine (initialValue_ends (by omega)).bind (fun v hv => hlead.append hv)
    fun initial v m₂ _ hinitial => ?_
  refine .expect (hlead.append hinitial.plain.fragmentary)
    fun semicolon m₃ hsemicolon _ => .pure ?_
  cases hinitial with
  | assigned hequal h => exact .assigned hstart hname hequal h hsemicolon
  | given h => exact .given hstart hname h hsemicolon
  | bare => exact .bare hstart hname hsemicolon


-- ---------------------------------------------------------------------------
-- Clauses and parameters
-- ---------------------------------------------------------------------------

theorem forInitial_ends (hn : 16 * c.rest.length + 11 ≤ n) :
    Ends [] (forInitial n) c (fun initial w _ => ForInitial w initial) Fragmentary := by
  simp only [forInitial]
  refine .current ?_
  split
  · next hk =>
    refine .advance (by simp [hk]) fun semicolon m hsemicolon _ => .pure ?_
    exact .none (hsemicolon.trans hk)
  · next hk =>
    refine (varDeclaration_ends hk hn).bind (fun w hw => hw) fun s w m _ hs => .pure ?_
    exact .var hs
  · refine (expressionStatement_ends hn).bind (fun w hw => hw) fun s w m _ hs => .pure ?_
    exact .expression hs

theorem forCondition_ends (hn : 16 * c.rest.length + 11 ≤ n) :
    Ends [] (forCondition n) c (fun condition w _ => ForCondition w condition) Fragmentary := by
  simp only [forCondition]
  refine .current ?_
  split
  · refine .expect .nil fun semicolon m hsemicolon hm => .pure ?_
    rw [hm.current_of_cons]
    exact .none hsemicolon
  · refine (expression_ends hn).bind (fun w hw => hw) fun e w m _ he => ?_
    refine .expect he.plain.fragmentary fun semicolon m₁ hsemicolon _ => .pure ?_
    exact .some he hsemicolon

theorem forUpdate_ends (hn : 16 * c.rest.length + 11 ≤ n) :
    Ends [] (forUpdate n) c (fun update w _ => Closed ForUpdate w update) Fragmentary := by
  simp only [forUpdate]
  refine .sees (fun _ => ?_) fun _ => ?_
  · refine .expect .nil fun closing m hclosing _ => .pure ?_
    exact .mk .none hclosing
  · have hupdate : Ends [] (some <$> expression n) c (fun update w _ => ForUpdate w update)
        Fragmentary :=
      (expression_ends hn).bind (fun w hw => hw) fun e w m _ he => .pure (.some he)
    refine hupdate.bind (fun w hw => hw) fun update w m _ hupdate => ?_
    refine .expect hupdate.plain.fragmentary fun closing m₁ hclosing _ => .pure ?_
    exact .mk hupdate hclosing

theorem parameterList_ends (hn : 16 * c.rest.length + 1 ≤ n) :
    Ends [] (parameterList n) c (fun names w _ => ParameterList w names) Fragmentary := by
  induction n generalizing c with
  | zero => omega
  | succ n ih =>
    refine .declaredName .nil fun name m hname hm => ?_
    have hlead : Plain [name] := .single hname
    refine .eat (fun comma m₁ hcomma hm₁ => ?_) fun _ => .pure (.one hname)
    have hlen := hm.length_rest_one
    have hlen₁ := hm₁.length_rest_one
    refine (ih (by omega)).bind
      (fun v hv => (hlead.append (.single hcomma)).fragmentary.append hv)
      fun names v m₂ _ hnames => .pure ?_
    exact .more hname hcomma hnames

theorem parameters_ends (hn : 16 * c.rest.length + 1 ≤ n) :
    Ends [] (parameters n) c (fun names w _ => Closed Parameters w names) Fragmentary := by
  simp only [parameters]
  refine .sees (fun _ => ?_) fun _ => ?_
  · refine .expect .nil fun closing m hclosing _ => .pure ?_
    exact .mk .none hclosing
  · refine (parameterList_ends hn).bind (fun w hw => hw) fun names w m _ hnames => ?_
    refine .expect hnames.plain.fragmentary fun closing m₁ hclosing _ => .pure ?_
    exact .mk (.some hnames) hclosing


-- ---------------------------------------------------------------------------
-- Statements with parts
-- ---------------------------------------------------------------------------

/-- The common beginning of `if` and `while`. -/
theorem guard_ends {α : Type} {keyword : Kind} {f : Token → Expr → Parse α}
    {ok : α → List Token → Kind → Prop} {before after : String} (hc : c.current.kind = keyword)
    (hk : startsHeader keyword = true) (hn : 16 * c.rest.length + 1 ≤ n + 1)
    (hf : ∀ u start condition m, c.Takes u m → Guard keyword u condition start.line →
      Ends u (f start condition) m ok BrokenStatement) :
    Ends [] (do
      let start ← advance
      let _ ← expect .leftParen before
      let condition ← expression n
      let _ ← expect .rightParen after
      f start condition) c ok BrokenStatement := by
  have hplain : keyword.isPlain = true := isPlain_of_startsHeader _ hk
  have hend : c.current.kind ≠ .endOfFile := by
    rw [hc]
    rintro rfl
    cases hk
  refine .advance hend fun start m hstart hm => ?_
  rw [hc] at hstart
  have hhead : startsHeader start.kind = true := hstart ▸ hk
  refine .expect (.simple (Plain.single hstart hplain).fragmentary)
    fun opening m₁ hopening hm₁ => ?_
  have hlen := hm.length_rest_one
  have hlen₁ := hm₁.length_rest_one
  refine (expression_ends (by omega)).bind (fun v hv => .fragment hhead hopening hv)
    fun condition v m₂ hv hcondition => ?_
  refine .expect (.fragment hhead hopening hcondition.plain.fragmentary)
    fun closing m₃ hclosing hm₃ => ?_
  have htakes : c.Takes (start :: opening :: (v ++ [closing])) m₃ := by
    simpa using hm.trans (hm₁.trans (hv.trans hm₃))
  have hrest := hf _ start condition m₃ htakes (.mk hstart hopening hcondition hclosing)
  simpa using hrest

/-- The beginning of `for`. -/
theorem forHeader_ends {α : Type} {f : Token → Option Stmt → Expr → Option Expr → Parse α}
    {ok : α → List Token → Kind → Prop} {before : String} (hc : c.current.kind = .kwFor)
    (hn : 16 * c.rest.length + 1 ≤ n + 1)
    (hf : ∀ u start initial condition update m, c.Takes u m →
      ForHeader u initial condition update start.line →
      Ends u (f start initial condition update) m ok BrokenStatement) :
    Ends [] (do
      let start ← advance
      let _ ← expect .leftParen before
      let initial ← forInitial n
      let condition ← forCondition n
      let update ← forUpdate n
      f start initial condition update) c ok BrokenStatement := by
  refine .advance (by simp [hc]) fun start m hstart hm => ?_
  rw [hc] at hstart
  have hs : startsHeader start.kind = true := by rw [hstart]; rfl
  refine .expect (.simple (Plain.single hstart).fragmentary)
    fun opening m₁ hopening hm₁ => ?_
  have hlen := hm.length_rest_one
  have hlen₁ := hm₁.length_rest_one
  refine (forInitial_ends (by omega)).bind (fun v hv => .fragment hs hopening hv)
    fun initial i m₂ hi hinitial => ?_
  have hlen₂ := hi.length_rest
  have hi' := hinitial.simple
  refine (forCondition_ends (by omega)).bind
    (fun v hv => .header hs hopening (hi'.braces_absent.append hv.inline.braces_absent)
      (hi'.whole.parens.safe.append hv.parens))
    fun condition k m₃ hk hcondition => ?_
  have hlen₃ := hk.length_rest
  have hk' := hcondition.simple
  refine (forUpdate_ends (by omega)).bind
    (fun v hv => by
      have habsent :=
        hi'.braces_absent.append (hk'.braces_absent.append hv.inline.braces_absent)
      have hsafe := hi'.whole.parens.safe.append (hk'.whole.parens.safe.append hv.parens)
      simpa using BrokenStatement.header hs hopening habsent hsafe)
    fun update v m₄ hv hupdate => ?_
  cases hupdate with
  | @mk v _ closing hupdate hclosing =>
    have htakes : c.Takes (start :: opening :: (i ++ (k ++ (v ++ [closing])))) m₄ := by
      simpa using hm.trans (hm₁.trans (hi.trans (hk.trans hv)))
    have hrest := hf _ start initial condition update m₄ htakes
      (.mk hstart hopening hinitial hcondition hupdate hclosing)
    simpa using hrest

/-- The beginning of a function, up to its body. -/
theorem functionHead_ends {α : Type} {f : Token → Name → List Name → Parse α}
    {ok : α → List Token → Kind → Prop} {called before : String} (hc : c.current.kind = .kwFun)
    (hn : 16 * c.rest.length + 1 ≤ n + 1)
    (hf : ∀ u start name names m, c.Takes u m → FunctionHead u name names start.line →
      Ends u (f start name names) m ok BrokenDeclaration) :
    Ends [] (do
      let start ← advance
      let name ← declaredName called
      let _ ← expect .leftParen before
      let names ← parameters n
      f start name names) c ok BrokenDeclaration := by
  refine .advance (by simp [hc]) fun start m hstart hm => ?_
  rw [hc] at hstart
  have hp₁ : Plain [start] := .single hstart
  refine .declaredName (.simple hp₁.fragmentary) fun name m₁ hname hm₁ => ?_
  have hp₂ : Plain ([start] ++ [name]) := hp₁.append (.single hname)
  refine .expect (.simple hp₂.fragmentary) fun opening m₂ hopening hm₂ => ?_
  have hlen := hm.length_rest_one
  have hlen₁ := hm₁.length_rest_one
  have hlen₂ := hm₂.length_rest_one
  have hlead : Fragmentary ([start] ++ [name] ++ [opening]) :=
    hp₂.fragmentary.append (.leftParen hopening)
  refine (parameters_ends (by omega)).bind (fun v hv => .simple (hlead.append hv))
    fun names v m₃ hv hnames => ?_
  cases hnames with
  | @mk v _ closing hnames hclosing =>
    have htakes : c.Takes (start :: name :: opening :: (v ++ [closing])) m₃ := by
      simpa using hm.trans (hm₁.trans (hm₂.trans hv))
    have hrest := hf _ start (declared name) names m₃ htakes
      (.mk hstart hname hopening hnames hclosing)
    simpa [declared] using hrest

/-- With enough fuel the functions for statements end. -/
structure StatementsEnd (n : Nat) : Prop where
  declaration : ∀ c, 16 * c.rest.length + 13 ≤ n →
    Ends [] (declaration n) c (fun s w k => Declaration w k s) BrokenDeclaration
  statement : ∀ c, 16 * c.rest.length + 12 ≤ n →
    Ends [] (statement n) c (fun s w k => Statement w k s) BrokenStatement
  blockBody : ∀ c, 16 * c.rest.length + 14 ≤ n →
    Ends [] (blockBody n) c
      (fun body w _ => ∃ (v : List Token) (closing : Token),
        w = v ++ [closing] ∧ Declarations v .rightBrace body ∧ closing.kind = .rightBrace)
      BrokenBody
  function : ∀ c, c.current.kind = .kwFun → 16 * c.rest.length + 1 ≤ n →
    Ends [] (function n) c (fun s w k => Declaration w k s) BrokenDeclaration
  forStatement : ∀ c, c.current.kind = .kwFor → 16 * c.rest.length + 1 ≤ n →
    Ends [] (forStatement n) c (fun s w k => Statement w k s) BrokenStatement
  ifStatement : ∀ c, c.current.kind = .kwIf → 16 * c.rest.length + 1 ≤ n →
    Ends [] (ifStatement n) c (fun s w k => Statement w k s) BrokenStatement
  whileStatement : ∀ c, c.current.kind = .kwWhile → 16 * c.rest.length + 1 ≤ n →
    Ends [] (whileStatement n) c (fun s w k => Statement w k s) BrokenStatement


-- ---------------------------------------------------------------------------
-- One more unit of fuel
-- ---------------------------------------------------------------------------

namespace StatementsEnd

variable (ih : StatementsEnd n)

include ih

theorem declaration_succ (c : Cursor) (hn : 16 * c.rest.length + 13 ≤ n + 1) :
    Ends [] (Parse.declaration (n + 1)) c (fun s w k => Declaration w k s) BrokenDeclaration := by
  unfold Parse.declaration
  refine .current ?_
  split
  · next hk => exact ih.function c hk (by omega)
  · next hk =>
    exact (varDeclaration_ends hk (by omega)).last (fun w hw => .simple hw)
      fun s w _ hs => .var hs
  · exact (ih.statement c (by omega)).last (fun w hw => .statement hw)
      fun s w _ hs => .statement hs

theorem statement_succ (c : Cursor) (hn : 16 * c.rest.length + 12 ≤ n + 1) :
    Ends [] (Parse.statement (n + 1)) c (fun s w k => Statement w k s) BrokenStatement := by
  unfold Parse.statement
  refine .current ?_
  split
  · next hk => exact ih.forStatement c hk (by omega)
  · next hk => exact ih.ifStatement c hk (by omega)
  · next hk =>
    exact (printStatement_ends hk (by omega)).last (fun w hw => .simple hw) fun s w _ hs => hs
  · next hk =>
    exact (returnStatement_ends hk (by omega)).last (fun w hw => .simple hw) fun s w _ hs => hs
  · next hk => exact ih.whileStatement c hk (by omega)
  · next hk =>
    refine .advance (by simp [hk]) fun opening m hopening hm => ?_
    rw [hk] at hopening
    have hlen := hm.length_rest_one
    refine (ih.blockBody m (by omega)).bind (fun v hv => .block hopening hv)
      fun body w m₁ _ hbody => .pure ?_
    obtain ⟨v, closing, rfl, hbody, hclosing⟩ := hbody
    exact .block hopening hbody hclosing
  · exact (expressionStatement_ends (by omega)).last (fun w hw => .simple hw)
      fun s w _ hs => .expression hs

theorem blockBody_succ (c : Cursor) (hn : 16 * c.rest.length + 14 ≤ n + 1) :
    Ends [] (Parse.blockBody (n + 1)) c
      (fun body w _ => ∃ (v : List Token) (closing : Token),
        w = v ++ [closing] ∧ Declarations v .rightBrace body ∧ closing.kind = .rightBrace)
      BrokenBody := by
  unfold Parse.blockBody
  refine .sees (fun hk => ?_) fun hk => .atEnd ?_
  · refine .atEnd (.expect .unclosed fun closing m hclosing _ => .pure ?_)
    exact ⟨[], closing, rfl, .nil, hclosing⟩
  · simp only [Bool.false_or]
    split
    · exact .expect .unclosed fun closing m hclosing hm =>
        absurd (hm.current_of_cons ▸ hclosing) hk
    · refine (ih.declaration c (by omega)).bind (fun w hw => .first hw)
        fun first w m hw hfirst => ?_
      have hlen := hw.length_rest
      have hpos := hfirst.first.length_pos
      refine (ih.blockBody m (by omega)).bind (fun v hv => .more hfirst hv)
        fun more v m₁ hv hmore => .pure ?_
      obtain ⟨v, closing, rfl, hmore, hclosing⟩ := hmore
      refine ⟨w ++ v, closing, by simp, .cons ?_ hmore, hclosing⟩
      rw [hv.current_kind] at hfirst
      cases v with
      | nil => rwa [← hclosing]
      | cons t v => exact hfirst

theorem function_succ (c : Cursor) (hc : c.current.kind = .kwFun)
    (hn : 16 * c.rest.length + 1 ≤ n + 1) :
    Ends [] (Parse.function (n + 1)) c (fun s w k => Declaration w k s) BrokenDeclaration := by
  unfold Parse.function
  refine functionHead_ends hc hn fun u start name names m hu hhead => ?_
  have hlen := hu.length_rest
  refine .expect (.simple hhead.plain.fragmentary) fun brace m₁ hbrace hm₁ => ?_
  have hlen₁ := hm₁.length_rest_one
  refine (ih.blockBody m₁ (by omega)).bind
    (fun v hv => by simpa using BrokenDeclaration.function hhead hbrace hv)
    fun body w m₂ _ hbody => .pure ?_
  obtain ⟨v, last, rfl, hbody, hlast⟩ := hbody
  simpa using Declaration.function hhead hbrace hbody hlast

theorem forStatement_succ (c : Cursor) (hc : c.current.kind = .kwFor)
    (hn : 16 * c.rest.length + 1 ≤ n + 1) :
    Ends [] (Parse.forStatement (n + 1)) c (fun s w k => Statement w k s) BrokenStatement := by
  unfold Parse.forStatement
  refine forHeader_ends hc hn fun u start initial condition update m hu hheader => ?_
  have hlen := hu.length_rest
  have hpos := hheader.first.length_pos
  refine (ih.statement m (by omega)).bind (fun v hv => .body (.forHead hheader) hv)
    fun body v m₁ _ hbody => .pure ?_
  exact .of_forLoop hheader hbody

theorem ifStatement_succ (c : Cursor) (hc : c.current.kind = .kwIf)
    (hn : 16 * c.rest.length + 1 ≤ n + 1) :
    Ends [] (Parse.ifStatement (n + 1)) c (fun s w k => Statement w k s) BrokenStatement := by
  unfold Parse.ifStatement
  refine guard_ends hc rfl hn fun u start condition m hu hguard => ?_
  have hlen := hu.length_rest
  have hpos := hguard.first.length_pos
  refine (ih.statement m (by omega)).bind (fun v hv => .body (.ifHead hguard) hv)
    fun yes v m₁ hv hyes => ?_
  have hlen₁ := hv.length_rest
  refine .eat (fun other m₂ hother hm₂ => ?_) fun hother => ?_
  · rw [hm₂.current_of_cons, hother] at hyes
    have hlen₂ := hm₂.length_rest_one
    refine (ih.statement m₂ (by omega)).bind
      (fun w hw => by simpa using BrokenStatement.otherBranch hguard hyes hother hw)
      fun no w m₃ _ hno => .pure ?_
    simpa using Statement.ifElse hguard hyes hother hno
  · exact .pure (.ifOnly hguard hyes hother)

theorem whileStatement_succ (c : Cursor) (hc : c.current.kind = .kwWhile)
    (hn : 16 * c.rest.length + 1 ≤ n + 1) :
    Ends [] (Parse.whileStatement (n + 1)) c (fun s w k => Statement w k s) BrokenStatement := by
  unfold Parse.whileStatement
  refine guard_ends hc rfl hn fun u start condition m hu hguard => ?_
  have hlen := hu.length_rest
  have hpos := hguard.first.length_pos
  refine (ih.statement m (by omega)).bind (fun v hv => .body (.whileHead hguard) hv)
    fun body v m₁ _ hbody => .pure ?_
  exact .whileLoop hguard hbody

end StatementsEnd

theorem statementsEnd (n : Nat) : StatementsEnd n := by
  induction n with
  | zero => constructor <;> (intros; omega)
  | succ n ih =>
    exact ⟨ih.declaration_succ, ih.statement_succ, ih.blockBody_succ, ih.function_succ,
      ih.forStatement_succ, ih.ifStatement_succ, ih.whileStatement_succ⟩

end Parse

end Lox
