-- SUMMARY: The text of a program tells its tree.
import Lox.Proofs.Tree.Written
import Lox.Proofs.Unlined.Basic

/-!
## Texts of programs

Different trees have different forms: the first word of a list tells the node, or the first word and
the number of parts, and a literal is no name. So two programs with the same text are the same but
for the lines of their nodes, and a program has one line of text for each statement
(`programText_identifies`).
-/

namespace Lox

-- ---------------------------------------------------------------------------
-- Different trees have different forms
-- ---------------------------------------------------------------------------

/-- What can be read back is told by its text. -/
theorem eq_of_read {α : Type} {write : α → String} {read? : String → Option α} {a b : α}
    (hread : ∀ a, read? (write a) = some a) (h : write a = write b) : a = b :=
  Option.some.inj ((hread a).symm.trans (h ▸ hread b))

/-- The operators of three parts can be told from each other, and from the words that stand in their
place. -/
theorem BinaryOp.symbol_ne (op : BinaryOp) :
    op.symbol ≠ "=" ∧ op.symbol ≠ "call" ∧ ∀ op' : LogicalOp, op.symbol ≠ op'.symbol := by
  refine ⟨by cases op <;> decide, by cases op <;> decide, fun op' => ?_⟩
  cases op <;> cases op' <;> decide

theorem LogicalOp.symbol_ne (op : LogicalOp) : op.symbol ≠ "=" ∧ op.symbol ≠ "call" := by
  cases op <;> decide

theorem UnaryOp.symbol_ne (op : UnaryOp) : op.symbol ≠ "group" ∧ op.symbol ≠ "call" := by
  cases op <;> decide

mutual

theorem Expr.form_injective : ∀ {e e' : Expr}, e.Readable → e'.Readable → e.form = e'.form →
    e.unlined = e'.unlined
  | .literal l _, e', he, he', h => by
    cases e' with
    | literal l' _ =>
      rw [unlined, unlined, Literal.written_injective he he' (Form.atom.inj h)]
    | var name _ => exact absurd (Form.atom.inj h).symm (Literal.name_ne_written he' he)
    | _ => cases h
  | .var name _, e', he, he', h => by
    cases e' with
    | literal l' _ => exact absurd (Form.atom.inj h) (Literal.name_ne_written he he')
    | var name' _ => rw [unlined, unlined, Form.atom.inj h]
    | _ => cases h
  | .assign name value _, e', he, he', h => by
    cases e' with
    | assign name' value' _ =>
      simp only [form, Form.list.injEq, Form.atom.injEq, List.cons.injEq, and_true,
        true_and] at h
      rw [unlined, unlined, h.1, form_injective he.2 he'.2 h.2]
    | _ => grind [form, BinaryOp.symbol_ne, LogicalOp.symbol_ne]
  | .binary op left right _, e', he, he', h => by
    cases e' with
    | binary op' left' right' _ =>
      simp only [form, Form.list.injEq, Form.atom.injEq, List.cons.injEq, and_true] at h
      obtain ⟨hop, hleft, hright⟩ := h
      rw [unlined, unlined, eq_of_read BinaryOp.ofSymbol?_symbol hop,
        form_injective he.1 he'.1 hleft, form_injective he.2 he'.2 hright]
    | _ => grind [form, BinaryOp.symbol_ne]
  | .logical op left right _, e', he, he', h => by
    cases e' with
    | logical op' left' right' _ =>
      simp only [form, Form.list.injEq, Form.atom.injEq, List.cons.injEq, and_true] at h
      obtain ⟨hop, hleft, hright⟩ := h
      rw [unlined, unlined, eq_of_read LogicalOp.ofSymbol?_symbol hop,
        form_injective he.1 he'.1 hleft, form_injective he.2 he'.2 hright]
    | _ => grind [form, BinaryOp.symbol_ne, LogicalOp.symbol_ne]
  | .unary op operand _, e', he, he', h => by
    cases e' with
    | unary op' operand' _ =>
      simp only [form, Form.list.injEq, Form.atom.injEq, List.cons.injEq, and_true] at h
      rw [unlined, unlined, eq_of_read UnaryOp.ofSymbol?_symbol h.1,
        @form_injective operand operand' he he' h.2]
    | _ => grind [form, UnaryOp.symbol_ne]
  | .group inner _, e', he, he', h => by
    cases e' with
    | group inner' _ =>
      simp only [form, Form.list.injEq, List.cons.injEq, and_true, true_and] at h
      rw [unlined, unlined, @form_injective inner inner' he he' h]
    | _ => grind [form, UnaryOp.symbol_ne]
  | .call callee arguments _, e', he, he', h => by
    cases e' with
    | call callee' arguments' _ =>
      simp only [form, Form.list.injEq, List.cons.injEq, true_and] at h
      rw [unlined, unlined, form_injective he.1 he'.1 h.1, forms_injective he.2 he'.2 h.2]
    | _ => grind [form, BinaryOp.symbol_ne, LogicalOp.symbol_ne, UnaryOp.symbol_ne]

theorem Expr.forms_injective : ∀ {es es' : List Expr}, Expr.AllReadable es →
    Expr.AllReadable es' → Expr.forms es = Expr.forms es' →
      Expr.unlinedAll es = Expr.unlinedAll es'
  | [], [], _, _, _ => rfl
  | e :: es, e' :: es', he, he', h => by
    obtain ⟨hfirst, hrest⟩ := List.cons.inj h
    rw [unlinedAll, unlinedAll, form_injective he.1 he'.1 hfirst,
      forms_injective he.2 he'.2 hrest]

end

theorem parametersForm_injective {names names' : List Name}
    (h : parametersForm names = parametersForm names') :
    names.map Name.unlined = names'.map Name.unlined := by
  induction names generalizing names' with
  | nil =>
    cases names' with
    | nil => rfl
    | cons => cases h
  | cons p names ih =>
    cases names' with
    | nil => cases h
    | cons p' names' =>
      obtain ⟨hp, hrest⟩ := List.cons.inj (Form.list.inj h)
      rw [List.map_cons, List.map_cons, Name.unlined, Name.unlined, Form.atom.inj hp,
        ih (congrArg Form.list hrest)]

mutual

theorem Stmt.form_injective : ∀ {s s' : Stmt}, s.Readable → s'.Readable → s.form = s'.form →
    s.unlined = s'.unlined
  | .expr value _, s', hs, hs', h => by
    cases s' with
    | expr value' _ =>
      simp only [form, Form.list.injEq, List.cons.injEq, and_true, true_and] at h
      rw [unlined, unlined, Expr.form_injective hs hs' h]
    | _ => simp [form] at h
  | .print value _, s', hs, hs', h => by
    cases s' with
    | print value' _ =>
      simp only [form, Form.list.injEq, List.cons.injEq, and_true, true_and] at h
      rw [unlined, unlined, Expr.form_injective hs hs' h]
    | _ => simp [form] at h
  | .var name initial _, s', hs, hs', h => by
    cases s' with
    | var name' initial' _ =>
      simp only [form, Form.list.injEq, Form.atom.injEq, List.cons.injEq, and_true,
        true_and] at h
      rw [unlined, unlined, Name.unlined, Name.unlined, h.1,
        Expr.form_injective hs.2 hs'.2 h.2]
    | _ => simp [form] at h
  | .block body _, s', hs, hs', h => by
    cases s' with
    | block body' _ =>
      simp only [form, Form.list.injEq, List.cons.injEq, true_and] at h
      rw [unlined, unlined, forms_injective hs hs' h]
    | _ => simp [form] at h
  | .branch condition yes no _, s', hs, hs', h => by
    cases s' with
    | branch condition' yes' no' _ =>
      simp only [form, Form.list.injEq, List.cons.injEq, true_and] at h
      obtain ⟨hcondition, hyes, hno⟩ := h
      rw [unlined, unlined, Expr.form_injective hs.1 hs'.1 hcondition,
        form_injective hs.2.1 hs'.2.1 hyes, elseForms_injective hs.2.2 hs'.2.2 hno]
    | _ => simp [form] at h
  | .loop condition body _, s', hs, hs', h => by
    cases s' with
    | loop condition' body' _ =>
      simp only [form, Form.list.injEq, List.cons.injEq, and_true, true_and] at h
      rw [unlined, unlined, Expr.form_injective hs.1 hs'.1 h.1, form_injective hs.2 hs'.2 h.2]
    | _ => simp [form] at h
  | .func name parameters body _, s', hs, hs', h => by
    cases s' with
    | func name' parameters' body' _ =>
      simp only [form, Form.list.injEq, Form.atom.injEq, List.cons.injEq, true_and] at h
      obtain ⟨hname, hparameters, hbody⟩ := h
      rw [unlined, unlined, Name.unlined, Name.unlined, hname,
        parametersForm_injective hparameters, forms_injective hs.2.2 hs'.2.2 hbody]
    | _ => simp [form] at h
  | .ret value _, s', hs, hs', h => by
    cases s' with
    | ret value' _ =>
      simp only [form, Form.list.injEq, List.cons.injEq, and_true, true_and] at h
      rw [unlined, unlined, Expr.form_injective hs hs' h]
    | _ => simp [form] at h

theorem Stmt.forms_injective : ∀ {ss ss' : List Stmt}, Stmt.AllReadable ss →
    Stmt.AllReadable ss' → Stmt.forms ss = Stmt.forms ss' →
      Stmt.unlinedAll ss = Stmt.unlinedAll ss'
  | [], [], _, _, _ => rfl
  | s :: ss, s' :: ss', hs, hs', h => by
    obtain ⟨hfirst, hrest⟩ := List.cons.inj h
    rw [unlinedAll, unlinedAll, form_injective hs.1 hs'.1 hfirst,
      forms_injective hs.2 hs'.2 hrest]

theorem Stmt.elseForms_injective : ∀ {no no' : Option Stmt}, Stmt.ElseReadable no →
    Stmt.ElseReadable no' → Stmt.elseForms no = Stmt.elseForms no' →
      Stmt.unlinedElse no = Stmt.unlinedElse no'
  | none, none, _, _, _ => rfl
  | some s, some s', hs, hs', h => by
    rw [unlinedElse, unlinedElse, form_injective hs hs' (List.cons.inj h).1]

end

-- ---------------------------------------------------------------------------
-- Programs
-- ---------------------------------------------------------------------------

variable {program program' : List Stmt}

/-- The texts of statements, each with a line break behind it. -/
def lines : List Stmt → List Char
  | [] => []
  | s :: ss => s.form.chars ++ '\n' :: lines ss

theorem toList_programText (program : List Stmt) :
    (programText program).toList = lines program := by
  induction program with
  | nil => rfl
  | cons s ss ih =>
    rw [programText, List.map_cons, String.join_cons, String.toList_append, ← programText, ih]
    simp [lines, s.toList_text]

theorem lines_injective : ∀ {ss ss' : List Stmt}, Stmt.AllReadable ss → Stmt.AllReadable ss' →
    lines ss = lines ss' → Stmt.forms ss = Stmt.forms ss'
  | [], [], _, _, _ => rfl
  | [], s' :: ss', _, hs', h => by
    obtain ⟨c, cs, hcs, -⟩ := (Stmt.proper_form hs'.1).first
    rw [lines, lines, hcs] at h
    cases h
  | s :: ss, [], hs, _, h => by
    obtain ⟨c, cs, hcs, -⟩ := (Stmt.proper_form hs.1).first
    rw [lines, lines, hcs] at h
    cases h
  | s :: ss, s' :: ss', hs, hs', h => by
    obtain ⟨hfirst, hrest⟩ :=
      Form.chars_append_inj (Stmt.proper_form hs.1) (Stmt.proper_form hs'.1)
        (Form.stops_cons rfl) (Form.stops_cons rfl) h
    rw [Stmt.forms, Stmt.forms, hfirst, lines_injective hs.2 hs'.2 (List.cons.inj hrest).2]

theorem count_lines {ss : List Stmt} (h : Stmt.AllReadable ss) :
    (lines ss).count '\n' = ss.length := by
  induction ss with
  | nil => rfl
  | cons s ss ih =>
    have hfirst := List.count_eq_zero_of_not_mem (Form.no_break (Stmt.proper_form h.1))
    rw [lines, List.count_append, List.count_cons_self, hfirst, ih h.2, Nat.zero_add,
      List.length_cons]

/-- The text of a program has a line for each statement, and no other program has it but for the
lines that the nodes stand on. -/
theorem programText_identifies (h : Stmt.AllReadable program) :
    (programText program).toList.count '\n' = program.length ∧
      ∀ program', Stmt.AllReadable program' → programText program = programText program' →
        Stmt.unlinedAll program = Stmt.unlinedAll program' := by
  rw [toList_programText]
  refine ⟨count_lines h, fun program' h' htext => ?_⟩
  have hlines := congrArg String.toList htext
  rw [toList_programText, toList_programText] at hlines
  exact Stmt.forms_injective h h' (lines_injective h h' hlines)

/-- A quote, a line break, a number that could be a difference, and a function: wherever the
statements stand, the text is the same two lines. -/
theorem two_lines_identified :
    let sum (line : Nat) : Expr :=
      .binary .add (.var "x" line) (.literal (.string "\"\n") line) line
    let program (line other : Nat) : List Stmt :=
      [.print (.group (sum line) line) line,
        .func ⟨"f", line⟩ [⟨"p", other⟩] [.ret (.unary .neg (.literal (.number 1) line) other) line]
          other]
    Stmt.AllReadable (program 1 2) ∧ Stmt.AllReadable (program 3 3) ∧
      programText (program 1 2) = programText (program 3 3) ∧
      (programText (program 1 2)).toList.count '\n' = 2 ∧
      Stmt.unlinedAll (program 1 2) = Stmt.unlinedAll (program 3 3) := by
  have hone : Number.Finite 1 := ⟨_, _, _, rfl⟩
  have hx : IsName "x" := ⟨rfl, rfl⟩
  have hf : IsName "f" := ⟨rfl, rfl⟩
  have hp : IsName "p" := ⟨rfl, rfl⟩
  intro sum program
  have hreadable (line other : Nat) : Stmt.AllReadable (program line other) :=
    ⟨⟨hx, trivial⟩, ⟨hf, List.forall_mem_singleton.2 hp, hone, trivial⟩, trivial⟩
  have htext : programText (program 1 2) = programText (program 3 3) := rfl
  obtain ⟨hcount, hidentified⟩ := programText_identifies (hreadable 1 2)
  exact ⟨hreadable 1 2, hreadable 3 3, htext, hcount,
    hidentified (program 3 3) (hreadable 3 3) htext⟩

end Lox
