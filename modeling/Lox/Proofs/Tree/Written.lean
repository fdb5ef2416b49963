-- SUMMARY: The forms that trees are written as.
import Lox.Proofs.Number.Text
import Lox.Proofs.Tree.Form
import Lox.Token.Word
import Lox.Tree.Printer

/-!
## Forms of trees

The text of a tree is that of a form (`Expr.toList_text`, `Stmt.toList_text`). If the names in the
tree are names and its numbers are finite, then the words of the form are words, and no name is a
literal (`Literal.name_ne_written`).
-/

namespace Lox

open Form (Atom)

/-- The word has the shape of an identifier and is not reserved. -/
def IsName (s : String) : Prop :=
  isIdentifier s.toList = true ∧ Kind.keyword? s = none

def Literal.Readable : Literal → Prop
  | .number x => Number.Finite x
  | _ => True

mutual

/-- Names can be told from literals, and all numbers are finite. -/
def Expr.Readable : Expr → Prop
  | .literal value _ => value.Readable
  | .var name _ => IsName name
  | .assign name value _ => IsName name ∧ value.Readable
  | .binary _ left right _ => left.Readable ∧ right.Readable
  | .logical _ left right _ => left.Readable ∧ right.Readable
  | .unary _ operand _ => operand.Readable
  | .group inner _ => inner.Readable
  | .call callee arguments _ => callee.Readable ∧ Expr.AllReadable arguments

def Expr.AllReadable : List Expr → Prop
  | [] => True
  | e :: es => e.Readable ∧ Expr.AllReadable es

end

mutual

def Stmt.Readable : Stmt → Prop
  | .expr value _ => value.Readable
  | .print value _ => value.Readable
  | .var name initial _ => IsName name.text ∧ initial.Readable
  | .block body _ => Stmt.AllReadable body
  | .branch condition yes no _ => condition.Readable ∧ yes.Readable ∧ Stmt.ElseReadable no
  | .loop condition body _ => condition.Readable ∧ body.Readable
  | .func name parameters body _ =>
    IsName name.text ∧ (∀ p ∈ parameters, IsName p.text) ∧ Stmt.AllReadable body
  | .ret value _ => value.Readable

def Stmt.AllReadable : List Stmt → Prop
  | [] => True
  | s :: ss => s.Readable ∧ Stmt.AllReadable ss

def Stmt.ElseReadable : Option Stmt → Prop
  | none => True
  | some s => s.Readable

end

-- ---------------------------------------------------------------------------
-- Forms of trees
-- ---------------------------------------------------------------------------

mutual

def Expr.form : Expr → Form
  | .literal value _ => .atom value.written
  | .var name _ => .atom name
  | .assign name value _ => .list [.atom "=", .atom name, value.form]
  | .binary op left right _ => .list [.atom op.symbol, left.form, right.form]
  | .logical op left right _ => .list [.atom op.symbol, left.form, right.form]
  | .unary op operand _ => .list [.atom op.symbol, operand.form]
  | .group inner _ => .list [.atom "group", inner.form]
  | .call callee arguments _ => .list (.atom "call" :: callee.form :: Expr.forms arguments)

def Expr.forms : List Expr → List Form
  | [] => []
  | e :: es => e.form :: Expr.forms es

end

def parametersForm (names : List Name) : Form :=
  .list (names.map fun name => .atom name.text)

mutual

def Stmt.form : Stmt → Form
  | .expr value _ => .list [.atom ";", value.form]
  | .print value _ => .list [.atom "print", value.form]
  | .var name initial _ => .list [.atom "var", .atom name.text, initial.form]
  | .block body _ => .list (.atom "block" :: Stmt.forms body)
  | .branch condition yes no _ =>
    .list (.atom "if" :: condition.form :: yes.form :: Stmt.elseForms no)
  | .loop condition body _ => .list [.atom "while", condition.form, body.form]
  | .func name parameters body _ =>
    .list (.atom "fun" :: .atom name.text :: parametersForm parameters :: Stmt.forms body)
  | .ret value _ => .list [.atom "return", value.form]

def Stmt.forms : List Stmt → List Form
  | [] => []
  | s :: ss => s.form :: Stmt.forms ss

def Stmt.elseForms : Option Stmt → List Form
  | none => []
  | some s => [s.form]

end

mutual

theorem Expr.toList_text : ∀ e : Expr, e.text.toList = e.form.chars
  | .literal .. | .var .. => rfl
  | .assign name value _ => by
    simp [text, form, Form.chars, Form.inner, Form.tail, value.toList_text]
  | .binary op left right _ => by
    simp [text, form, Form.chars, Form.inner, Form.tail, left.toList_text, right.toList_text]
  | .logical op left right _ => by
    simp [text, form, Form.chars, Form.inner, Form.tail, left.toList_text, right.toList_text]
  | .unary op operand _ => by
    simp [text, form, Form.chars, Form.inner, Form.tail, operand.toList_text]
  | .group inner _ => by
    simp [text, form, Form.chars, Form.inner, Form.tail, inner.toList_text]
  | .call callee arguments _ => by
    simp [text, form, Form.chars, Form.inner, Form.tail, callee.toList_text,
      Expr.toList_listText arguments]

theorem Expr.toList_listText : ∀ es : List Expr,
    (Expr.listText es).toList ++ [')'] = Form.tail (Expr.forms es)
  | [] => rfl
  | e :: es => by
    simp [listText, forms, Form.tail, e.toList_text, Expr.toList_listText es]

end

/-- Names with spaces between them, the first one with nothing before it. -/
theorem intercalate_names (cs : List Char) (names : List Name) :
    [' '].intercalate (cs :: names.map (String.toList ∘ Name.text)) ++ [')'] =
      cs ++ Form.tail (names.map fun name => .atom name.text) := by
  induction names generalizing cs with
  | nil => simp [Form.tail, List.intercalate]
  | cons name names ih =>
    rw [List.map_cons, List.intercalate_cons_cons, List.append_assoc, ih]
    simp [Form.tail, Form.chars]

theorem toList_parametersText (names : List Name) :
    (parametersText names).toList = (parametersForm names).chars := by
  cases names with
  | nil => rfl
  | cons name names =>
    simp [parametersText, parametersForm, Form.chars, Form.inner, intercalate_names]

mutual

theorem Stmt.toList_text : ∀ s : Stmt, s.text.toList = s.form.chars
  | .expr value _ | .print value _ | .ret value _ => by
    simp [text, form, Form.chars, Form.inner, Form.tail, value.toList_text]
  | .var name initial _ => by
    simp [text, form, Form.chars, Form.inner, Form.tail, initial.toList_text]
  | .block body _ => by
    simp [text, form, Form.chars, Form.inner, Stmt.toList_listText body]
  | .branch condition yes no _ => by
    simp [text, form, Form.chars, Form.inner, Form.tail, condition.toList_text,
      yes.toList_text, Stmt.toList_elseText no]
  | .loop condition body _ => by
    simp [text, form, Form.chars, Form.inner, Form.tail, condition.toList_text,
      body.toList_text]
  | .func name parameters body _ => by
    simp [text, form, Form.chars, Form.inner, Form.tail, toList_parametersText,
      Stmt.toList_listText body]

theorem Stmt.toList_listText : ∀ ss : List Stmt,
    (Stmt.listText ss).toList ++ [')'] = Form.tail (Stmt.forms ss)
  | [] => rfl
  | s :: ss => by
    simp [listText, forms, Form.tail, s.toList_text, Stmt.toList_listText ss]

theorem Stmt.toList_elseText : ∀ no : Option Stmt,
    (Stmt.elseText no).toList ++ [')'] = Form.tail (Stmt.elseForms no)
  | none => rfl
  | some s => by
    simp [elseText, elseForms, Form.tail, s.toList_text]

end

-- ---------------------------------------------------------------------------
-- Words
-- ---------------------------------------------------------------------------

variable {c : Char} {s : String}

theorem le_of_isAlpha (h : c.isAlpha = true) : 65 ≤ c.toNat := by
  rcases Bool.or_eq_true_iff.1 h with h | h
  · exact (of_decide_eq_true h).1
  · exact Nat.le_trans (by decide) (of_decide_eq_true (Bool.and_eq_true_iff.1 h).1)

theorem le_of_isDigit (h : c.isDigit = true) : c.toNat ≤ 57 :=
  of_decide_eq_true (Bool.and_eq_true_iff.1 h).2

theorem isIdentifierStart_spec (h : isIdentifierStart c = true) :
    ¬ c.isDigit = true ∧ c ≠ '-' ∧ c ≠ '"' := by
  refine ⟨fun hdigit => ?_, ?_, ?_⟩
  · have hupper := le_of_isDigit hdigit
    rcases Bool.or_eq_true_iff.1 h with h | h
    · have hlower := le_of_isAlpha h
      omega
    · rw [eq_of_beq h] at hupper
      exact absurd hupper (by decide)
  · rintro rfl
    cases h
  · rintro rfl
    cases h

namespace IsName

theorem first (h : IsName s) : ∃ c cs, s.toList = c :: cs ∧ isIdentifierStart c = true := by
  have hshape := h.1
  cases hs : s.toList with
  | nil => rw [hs] at hshape; cases hshape
  | cons c cs =>
    rw [hs] at hshape
    exact ⟨c, cs, rfl, (Bool.and_eq_true_iff.1 hshape).1⟩

theorem isIdentifierChar (h : IsName s) : ∀ c ∈ s.toList, isIdentifierChar c = true := by
  have hshape := h.1
  cases hs : s.toList with
  | nil => exact List.forall_mem_nil _
  | cons c cs =>
    rw [hs] at hshape
    obtain ⟨hc, hcs⟩ := Bool.and_eq_true_iff.1 hshape
    refine List.forall_mem_cons.2 ⟨?_, List.all_eq_true.1 hcs⟩
    rcases Bool.or_eq_true_iff.1 hc with hc | hc
    · exact Bool.or_eq_true_iff.2 (.inl (Bool.or_eq_true_iff.2 (.inl hc)))
    · exact Bool.or_eq_true_iff.2 (.inr hc)

theorem atom (h : IsName s) : Atom s := by
  obtain ⟨c, cs, hcs, -⟩ := h.first
  refine .word (by rw [hcs]; exact List.cons_ne_nil c cs) fun d hd => ?_
  exact Form.isAtomChar_of (h.isIdentifierChar d hd) rfl

end IsName

-- ---------------------------------------------------------------------------
-- Literals
-- ---------------------------------------------------------------------------

/-- How the text of a literal starts. -/
def Literal.First : Literal → Char → Prop
  | .number _, c => c.isDigit = true ∨ c = '-'
  | .string _, c => c = '"'
  | .boolean b, c => c = if b then 't' else 'f'
  | .nil, c => c = 'n'

theorem not_isDigit_first {c : Char} (h : c = '"' ∨ c = 't' ∨ c = 'f' ∨ c = 'n') :
    c.isDigit = false := by
  rcases h with rfl | rfl | rfl | rfl <;> rfl

namespace Literal

variable {l l' : Literal}

theorem first_written : ∀ {l : Literal}, l.Readable →
    ∃ c cs, l.written.toList = c :: cs ∧ l.First c
  | .number _, hx =>
    have ⟨c, cs, hcs, hc, _⟩ := Number.text_chars hx
    ⟨c, cs, hcs, hc⟩
  | .string s, _ => ⟨'"', _, Form.toList_quoted s, rfl⟩
  | .boolean true, _ | .boolean false, _ | .nil, _ => ⟨_, _, rfl, rfl⟩

theorem atom_written : ∀ {l : Literal}, l.Readable → Atom l.written
  | .number _, hx => by
    obtain ⟨c, cs, hcs, hc, htail⟩ := Number.text_chars hx
    have hfirst : (c.isDigit || c == '-') = true := by simpa using hc
    have hrest (d : Char) (hd : d ∈ cs) : (d.isDigit || d == '.') = true := by
      simpa using htail d hd
    have hchars : ∀ d ∈ c :: cs, Form.isAtomChar d = true :=
      List.forall_mem_cons.2 ⟨Form.isAtomChar_of (p := fun d => d.isDigit || d == '-') hfirst rfl,
        fun d hd => Form.isAtomChar_of (p := fun d => d.isDigit || d == '.') (hrest d hd) rfl⟩
    rw [← hcs] at hchars
    exact .word (fun hnil => List.cons_ne_nil c cs (hcs.symm.trans hnil)) hchars
  | .string s, _ => .quoted s
  | .boolean true, _ | .boolean false, _ | .nil, _ => .of_all (by decide)

theorem written_injective (hl : l.Readable) (hl' : l'.Readable) (h : l.written = l'.written) :
    l = l' := by
  obtain ⟨c, cs, hcs, hc⟩ := first_written hl
  obtain ⟨c', cs', hcs', hc'⟩ := first_written hl'
  obtain rfl : c = c' := (List.cons.inj (hcs.symm.trans ((congrArg String.toList h).trans hcs'))).1
  cases l <;> cases l'
  case number.number => exact congrArg number (Number.text_injective hl hl' h)
  case string.string s t => exact congrArg string (Form.quoted_injective h)
  case boolean.boolean b b' => cases b <;> cases b' <;> first | rfl | cases hc.symm.trans hc'
  all_goals grind [First, not_isDigit_first]

theorem name_ne_written (hs : IsName s) (hl : l.Readable) : s ≠ l.written := by
  rintro rfl
  obtain ⟨c, cs, hcs, hc⟩ := first_written hl
  obtain ⟨c', cs', hcs', hc'⟩ := hs.first
  obtain rfl : c = c' := (List.cons.inj (hcs.symm.trans hcs')).1
  obtain ⟨hdigit, hminus, hquote⟩ := isIdentifierStart_spec hc'
  cases l with
  | number x =>
    rcases hc with hc | hc
    · exact hdigit hc
    · exact hminus hc
  | string s => exact hquote hc
  | boolean b => cases b <;> cases hs.2
  | nil => cases hs.2

end Literal

-- ---------------------------------------------------------------------------
-- Forms of readable trees
-- ---------------------------------------------------------------------------

theorem BinaryOp.atom_symbol (op : BinaryOp) : Atom op.symbol := by
  cases op <;> exact .of_all (by decide)

theorem LogicalOp.atom_symbol (op : LogicalOp) : Atom op.symbol := by
  cases op <;> exact .of_all (by decide)

theorem UnaryOp.atom_symbol (op : UnaryOp) : Atom op.symbol := by
  cases op <;> exact .of_all (by decide)

mutual

theorem Expr.proper_form : ∀ {e : Expr}, e.Readable → e.form.Proper
  | .literal _ _, h => Literal.atom_written h
  | .var _ _, h => h.atom
  | .assign _ _ _, h => ⟨.of_all (by decide), h.1.atom, proper_form h.2, trivial⟩
  | .binary op _ _ _, h => ⟨op.atom_symbol, proper_form h.1, proper_form h.2, trivial⟩
  | .logical op _ _ _, h => ⟨op.atom_symbol, proper_form h.1, proper_form h.2, trivial⟩
  | .unary op _ _, h => ⟨op.atom_symbol, proper_form h, trivial⟩
  | .group _ _, h => ⟨.of_all (by decide), proper_form h, trivial⟩
  | .call _ _ _, h => ⟨.of_all (by decide), proper_form h.1, allProper_forms h.2⟩

theorem Expr.allProper_forms : ∀ {es : List Expr}, Expr.AllReadable es →
    Form.AllProper (Expr.forms es)
  | [], _ => trivial
  | _ :: _, h => ⟨proper_form h.1, allProper_forms h.2⟩

end

theorem proper_parametersForm {names : List Name} (h : ∀ p ∈ names, IsName p.text) :
    (parametersForm names).Proper := by
  induction names with
  | nil => trivial
  | cons p names ih =>
    obtain ⟨hp, hnames⟩ := List.forall_mem_cons.1 h
    exact ⟨hp.atom, ih hnames⟩

mutual

theorem Stmt.proper_form : ∀ {s : Stmt}, s.Readable → s.form.Proper
  | .expr _ _, h | .print _ _, h | .ret _ _, h =>
    ⟨.of_all (by decide), Expr.proper_form h, trivial⟩
  | .var _ _ _, h =>
    ⟨.of_all (by decide), h.1.atom, Expr.proper_form h.2, trivial⟩
  | .block _ _, h => ⟨.of_all (by decide), allProper_forms h⟩
  | .branch _ _ _ _, h =>
    ⟨.of_all (by decide), Expr.proper_form h.1, proper_form h.2.1,
      allProper_elseForms h.2.2⟩
  | .loop _ _ _, h =>
    ⟨.of_all (by decide), Expr.proper_form h.1, proper_form h.2, trivial⟩
  | .func _ _ _ _, h =>
    ⟨.of_all (by decide), h.1.atom, proper_parametersForm h.2.1, allProper_forms h.2.2⟩

theorem Stmt.allProper_forms : ∀ {ss : List Stmt}, Stmt.AllReadable ss →
    Form.AllProper (Stmt.forms ss)
  | [], _ => trivial
  | _ :: _, h => ⟨proper_form h.1, allProper_forms h.2⟩

theorem Stmt.allProper_elseForms : ∀ {no : Option Stmt}, Stmt.ElseReadable no →
    Form.AllProper (Stmt.elseForms no)
  | none, _ => trivial
  | some _, h => ⟨proper_form h, trivial⟩

end

end Lox
