-- SUMMARY: Well-scoped programs: every name that is read or assigned to is known where it stands.
import Lox.Proofs.Parse.Turns
import Lox.Proofs.Tree.Names

/-!
## Well-scoped programs

A walk over a program goes through its statements in order and keeps the names that are declared so
far, scope by scope. A program is well scoped if the walk meets no name that it does not know.

The walk takes a declaration for done when it has passed it. That is so in the programs that are
parsed: no declaration stands directly under a condition or in a loop (`orderly_of_parse`).
-/

namespace Lox

open Grammar

/-- The names that are known at a point of a program, those of the innermost scope first. -/
abbrev Known : Type := List (List String)

namespace Known

def has (Γ : Known) (x : String) : Bool :=
  Γ.any fun names => names.contains x

/-- One more name in the innermost scope. -/
def add (x : String) : Known → Known
  | [] => [[x]]
  | names :: Γ => (x :: names) :: Γ

theorem has_cons {names : List String} {Γ : Known} {x : String} :
    has (names :: Γ) x = true ↔ x ∈ names ∨ has Γ x = true := by
  simp [has]

theorem has_add {Γ : Known} {x y : String} : (Γ.add y).has x = true ↔ x = y ∨ Γ.has x = true := by
  cases Γ with
  | nil => simp [add, has]
  | cons names Γ => simp [add, has, or_assoc]

end Known

-- ---------------------------------------------------------------------------
-- The walk
-- ---------------------------------------------------------------------------

mutual

/-- Every name that the expression reads or assigns to is known. -/
def Expr.wellScoped (Γ : Known) : Expr → Bool
  | .literal _ _ => true
  | .var name _ => Γ.has name
  | .assign name value _ => Γ.has name && value.wellScoped Γ
  | .binary _ left right _ => left.wellScoped Γ && right.wellScoped Γ
  | .logical _ left right _ => left.wellScoped Γ && right.wellScoped Γ
  | .unary _ operand _ => operand.wellScoped Γ
  | .group inner _ => inner.wellScoped Γ
  | .call callee arguments _ => callee.wellScoped Γ && Expr.allWellScoped Γ arguments

def Expr.allWellScoped (Γ : Known) : List Expr → Bool
  | [] => true
  | e :: es => e.wellScoped Γ && Expr.allWellScoped Γ es

end

/-- The names known behind an expression, if it is well scoped. -/
def Expr.walk (Γ : Known) (e : Expr) : Option Known :=
  if e.wellScoped Γ then some Γ else none

mutual

/-- The names known behind a statement, if the walk over it meets no other names. A function knows
its own name, and its parameters in a scope of its own. -/
def Stmt.walk (Γ : Known) : Stmt → Option Known
  | .expr value _ => value.walk Γ
  | .print value _ => value.walk Γ
  | .var name initial _ => (initial.walk Γ).map (Known.add name.text)
  | .block body _ => (Stmt.walkAll ([] :: Γ) body).map fun _ => Γ
  | .branch condition yes no _ =>
    (condition.walk Γ).bind fun Γ => (yes.walk Γ).bind fun Γ => Stmt.walkElse Γ no
  | .loop condition body _ => (condition.walk Γ).bind fun Γ => body.walk Γ
  | .func name parameters body _ =>
    (Stmt.walkAll (parameters.map Name.text :: Γ.add name.text) body).map fun _ => Γ.add name.text
  | .ret value _ => value.walk Γ

def Stmt.walkAll (Γ : Known) : List Stmt → Option Known
  | [] => some Γ
  | s :: ss => (s.walk Γ).bind fun Γ => Stmt.walkAll Γ ss

def Stmt.walkElse (Γ : Known) : Option Stmt → Option Known
  | none => some Γ
  | some s => s.walk Γ

end

/-- A program is well scoped among the given names of the global scope. -/
def WellScoped (globals : List String) (program : List Stmt) : Prop :=
  (Stmt.walkAll [globals] program).isSome

instance (globals : List String) (program : List Stmt) : Decidable (WellScoped globals program) :=
  inferInstanceAs (Decidable (_ = true))

-- A name is known from its declaration on, and not before it.
example : ¬WellScoped [] [.print (.var "a" 1) 1, .var ⟨"a", 1⟩ (.literal .nil 1) 1] := by decide

theorem Expr.walk_eq_some_iff {Γ Γ' : Known} {e : Expr} :
    e.walk Γ = some Γ' ↔ e.wellScoped Γ = true ∧ Γ = Γ' := by
  simp [Expr.walk]

-- ---------------------------------------------------------------------------
-- Orderly statements
-- ---------------------------------------------------------------------------

mutual

/-- No declaration stands directly under a condition or in a loop, anywhere in the statement. -/
def Stmt.Orderly : Stmt → Prop
  | .expr _ _ | .print _ _ | .var _ _ _ | .ret _ _ => True
  | .block body _ => Stmt.AllOrderly body
  | .branch _ yes no _ => yes.Orderly ∧ yes.declared = [] ∧ Stmt.OrderlyElse no
  | .loop _ body _ => body.Orderly ∧ body.declared = []
  | .func _ _ body _ => Stmt.AllOrderly body

def Stmt.AllOrderly : List Stmt → Prop
  | [] => True
  | s :: ss => s.Orderly ∧ Stmt.AllOrderly ss

def Stmt.OrderlyElse : Option Stmt → Prop
  | none => True
  | some s => s.Orderly ∧ s.declared = []

end

/-- A statement, and not a declaration. -/
def Stmt.Sentence (s : Stmt) : Prop :=
  s.Orderly ∧ s.declared = []

mutual

/-- A statement that declares nothing leaves the known names alone. -/
theorem Stmt.walk_of_declared {Γ Γ' : Known} :
    ∀ {s : Stmt}, s.declared = [] → s.walk Γ = some Γ' → Γ' = Γ
  | .expr _ _, _, h | .print _ _, _, h | .ret _ _, _, h => (Expr.walk_eq_some_iff.1 h).2.symm
  | .block _ _, _, h => by
    obtain ⟨_, _, rfl⟩ := Option.map_eq_some_iff.1 h
    rfl
  | .branch _ yes no _, hs, h => by
    obtain ⟨hyes, hno⟩ := List.append_eq_nil_iff.1 hs
    obtain ⟨_, hcondition, h⟩ := Option.bind_eq_some_iff.1 h
    obtain ⟨_, hwyes, hwno⟩ := Option.bind_eq_some_iff.1 h
    obtain rfl := (Expr.walk_eq_some_iff.1 hcondition).2
    obtain rfl := Stmt.walk_of_declared hyes hwyes
    exact Stmt.walkElse_of_declared hno hwno
  | .loop _ body _, hs, h => by
    have hs : body.declared = [] := hs
    obtain ⟨_, hcondition, hbody⟩ := Option.bind_eq_some_iff.1 h
    obtain rfl := (Expr.walk_eq_some_iff.1 hcondition).2
    exact Stmt.walk_of_declared hs hbody

theorem Stmt.walkElse_of_declared {Γ Γ' : Known} :
    ∀ {no : Option Stmt}, Stmt.declaredElse no = [] → Stmt.walkElse Γ no = some Γ' → Γ' = Γ
  | none, _, h => (Option.some.inj h).symm
  | some _, hs, h => Stmt.walk_of_declared hs h

end

-- ---------------------------------------------------------------------------
-- What is parsed is orderly
-- ---------------------------------------------------------------------------

theorem Grammar.VarDeclaration.orderly {w s} (h : VarDeclaration w s) : s.Orderly := by
  cases h <;> trivial

theorem Grammar.ExpressionStatement.sentence {w s} (h : ExpressionStatement w s) : s.Sentence := by
  cases h with
  | mk => exact ⟨trivial, rfl⟩

theorem Grammar.ForInitial.orderly {w s} (h : ForInitial w (some s)) : s.Orderly := by
  cases h with
  | var h => exact h.orderly
  | expression h => exact h.sentence.1

theorem Grammar.ForHeader.initial_orderly {w initial condition update line}
    (h : ForHeader w initial condition update line) (s : Stmt) (hs : initial = some s) :
    s.Orderly := by
  cases h with
  | mk _ _ hi _ _ _ => exact (hs ▸ hi).orderly

theorem Stmt.Sentence.branch {condition : Expr} {yes : Stmt} {no : Option Stmt} {line : Nat}
    (hyes : yes.Sentence) (hno : Stmt.OrderlyElse no) :
    (Stmt.branch condition yes no line).Sentence := by
  refine ⟨⟨hyes.1, hyes.2, hno⟩, List.append_eq_nil_iff.2 ⟨hyes.2, ?_⟩⟩
  cases no with
  | none => rfl
  | some no => exact hno.2

theorem Stmt.Sentence.loop {condition : Expr} {body : Stmt} {line : Nat} (h : body.Sentence) :
    (Stmt.loop condition body line).Sentence :=
  ⟨h, h.2⟩

/-- The declaration of a loop variable stands in the block around the loop. -/
theorem Stmt.Sentence.forLoop {initial : Option Stmt} {condition : Expr} {update : Option Expr}
    {body : Stmt} {line : Nat} (hi : ∀ s, initial = some s → s.Orderly) (h : body.Sentence) :
    (Stmt.forLoop initial condition update body line).Sentence := by
  cases update <;> cases initial <;>
    simp_all [Stmt.forLoop, Sentence, Orderly, AllOrderly, declared, ofExpr]

mutual

theorem Grammar.Statement.sentence {w next s} : Statement w next s → s.Sentence
  | .expression h => h.sentence
  | .print .. | .returnNothing .. | .returnValue .. => ⟨trivial, rfl⟩
  | .block _ h _ => ⟨h.orderly, rfl⟩
  | .ifOnly _ hv _ => .branch hv.sentence trivial
  | .ifElse _ hv _ hw => .branch hv.sentence hw.sentence
  | .whileLoop _ hv => .loop hv.sentence
  | .forLoop hu hv htree => Grammar.forTree_iff.1 htree ▸ .forLoop hu.initial_orderly hv.sentence

theorem Grammar.Declaration.orderly {w next s} : Declaration w next s → s.Orderly
  | .var h => h.orderly
  | .function _ _ h _ => h.orderly
  | .statement h => h.sentence.1

theorem Grammar.Declarations.orderly {w next ss} : Declarations w next ss → Stmt.AllOrderly ss
  | .nil => trivial
  | .cons h hv => ⟨h.orderly, hv.orderly⟩

end

theorem orderly_of_parse (ts : List Token) : Stmt.AllOrderly (parse ts).statements := by
  induction ts using parse_induction with
  | finish ts hend => trivial
  | turn ts r w d hturn ih =>
    cases hturn with
    | statement _ _ hs => exact ⟨hs.orderly, ih⟩
    | error => exact ih

end Lox
