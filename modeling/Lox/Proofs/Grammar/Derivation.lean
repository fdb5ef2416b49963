-- SUMMARY: The grammar as a derivation relation between token lists and trees.
import Lox.Parse.Grammar
import Lox.Proofs.Parse.Taking

/-!
# Grammar

The grammar of programs, stated without the functions of the parser: the two share tokens, trees
with the lines of their nodes, and the names of the six levels of binary operators. Every tree is
spelled out, also where the parser has a function that builds it. `Phrase r w e` says that the
tokens `w` are an expression of rank `r` with the tree `e`; `Statement w next s` and
`Declaration w next s` say the same of statements and declarations that stand before a token of the
kind `next`. The token after a statement is part of the relation for one reason: an `if` without an
`else` is derivable only where no `else` follows, so that an `else` belongs to the nearest `if`.
-/

namespace Lox

namespace Grammar

-- ---------------------------------------------------------------------------
-- Ranks
-- ---------------------------------------------------------------------------

/-- The ranks of expressions. -/
inductive Rank where
  | assignment
  | binary (level : Level)
  | unary
  | call
  | primary
  deriving DecidableEq

/-- The next tighter rank. Every phrase of it is also a phrase of the looser one. -/
def Rank.tighter? : Rank → Option Rank
  | assignment => some (binary .or)
  | binary .or => some (binary .and)
  | binary .and => some (binary .equality)
  | binary .equality => some (binary .comparison)
  | binary .comparison => some (binary .sum)
  | binary .sum => some (binary .product)
  | binary .product => some unary
  | unary => some call
  | call => some primary
  | primary => none

/-- The operators of a level, and the tree that such a token makes of its operands. -/
inductive Joins : Level → Token → Expr → Expr → Expr → Prop where
  | or {t l r} (h : t.kind = .or) : Joins .or t l r (.logical .or l r t.line)
  | and {t l r} (h : t.kind = .and) : Joins .and t l r (.logical .and l r t.line)
  | equal {t l r} (h : t.kind = .equalEqual) : Joins .equality t l r (.binary .equal l r t.line)
  | notEqual {t l r} (h : t.kind = .bangEqual) :
      Joins .equality t l r (.binary .notEqual l r t.line)
  | less {t l r} (h : t.kind = .less) : Joins .comparison t l r (.binary .less l r t.line)
  | lessEqual {t l r} (h : t.kind = .lessEqual) :
      Joins .comparison t l r (.binary .lessEqual l r t.line)
  | greater {t l r} (h : t.kind = .greater) : Joins .comparison t l r (.binary .greater l r t.line)
  | greaterEqual {t l r} (h : t.kind = .greaterEqual) :
      Joins .comparison t l r (.binary .greaterEqual l r t.line)
  | add {t l r} (h : t.kind = .plus) : Joins .sum t l r (.binary .add l r t.line)
  | sub {t l r} (h : t.kind = .minus) : Joins .sum t l r (.binary .sub l r t.line)
  | mul {t l r} (h : t.kind = .star) : Joins .product t l r (.binary .mul l r t.line)
  | div {t l r} (h : t.kind = .slash) : Joins .product t l r (.binary .div l r t.line)

/-- The operators that stand before their operand, and the tree that such a token makes of it. -/
inductive Prefixes : Token → Expr → Expr → Prop where
  | not {t e} (h : t.kind = .bang) : Prefixes t e (.unary .not e t.line)
  | neg {t e} (h : t.kind = .minus) : Prefixes t e (.unary .neg e t.line)

/-- The tokens that are expressions by themselves. -/
inductive Leaf : Token → Expr → Prop where
  | true {t} (h : t.kind = .kwTrue) : Leaf t (.literal (.boolean true) t.line)
  | false {t} (h : t.kind = .kwFalse) : Leaf t (.literal (.boolean false) t.line)
  | nil {t} (h : t.kind = .kwNil) : Leaf t (.literal .nil t.line)
  | number {t value} (h : t.kind = .number) (hv : t.literal = some value) :
      Leaf t (.literal value t.line)
  | string {t value} (h : t.kind = .string) (hv : t.literal = some value) :
      Leaf t (.literal value t.line)
  | name {t} (h : t.kind = .identifier) : Leaf t (.var t.lexeme t.line)


-- ---------------------------------------------------------------------------
-- Expressions
-- ---------------------------------------------------------------------------

mutual

/-- The tokens of an expression with its rank and its tree. Binary operators group to the left,
assignments to the right, and parentheses leave no node. -/
inductive Phrase : Rank → List Token → Expr → Prop where
  | loosen {r s w e} (hr : r.tighter? = some s) (h : Phrase s w e) : Phrase r w e
  | assign {w name line} {equal : Token} {v value} (ht : Phrase (.binary .or) w (.var name line))
      (heq : equal.kind = .equal) (hv : Phrase .assignment v value) :
      Phrase .assignment (w ++ equal :: v) (.assign name value line)
  | join {level s w left op v right e} (hr : (Rank.binary level).tighter? = some s)
      (hl : Phrase (.binary level) w left) (hv : Phrase s v right)
      (hop : Joins level op left right e) :
      Phrase (.binary level) (w ++ op :: v) e
  | unary {t w operand e} (h : Phrase .unary w operand) (hop : Prefixes t operand e) :
      Phrase .unary (t :: w) e
  | callNone {w callee} {opening closing : Token} (h : Phrase .call w callee)
      (ho : opening.kind = .leftParen) (hc : closing.kind = .rightParen) :
      Phrase .call (w ++ [opening, closing]) (.call callee [] opening.line)
  | call {w callee} {opening : Token} {v arguments} {closing : Token} (h : Phrase .call w callee)
      (ho : opening.kind = .leftParen) (ha : ArgumentList v arguments)
      (hc : closing.kind = .rightParen) :
      Phrase .call (w ++ opening :: (v ++ [closing])) (.call callee arguments opening.line)
  | property {w callee} {dot name : Token} (h : Phrase .call w callee) (hd : dot.kind = .dot)
      (hn : name.kind = .identifier) :
      Phrase .call (w ++ [dot, name])
        (.call callee [.literal (.string name.lexeme) name.line] dot.line)
  | leaf {t e} (h : Leaf t e) : Phrase .primary [t] e
  | parens {opening : Token} {w inner} {closing : Token} (ho : opening.kind = .leftParen)
      (h : Phrase .assignment w inner) (hc : closing.kind = .rightParen) :
      Phrase .primary (opening :: (w ++ [closing])) inner

/-- Expressions with commas between them, at least one. -/
inductive ArgumentList : List Token → List Expr → Prop where
  | one {w e} (h : Phrase .assignment w e) : ArgumentList w [e]
  | more {w e} {comma : Token} {v es} (h : Phrase .assignment w e) (hc : comma.kind = .comma)
      (hv : ArgumentList v es) : ArgumentList (w ++ comma :: v) (e :: es)

end


-- ---------------------------------------------------------------------------
-- Statements
-- ---------------------------------------------------------------------------

/-- The name that a token declares. -/
def declared (t : Token) : Name :=
  ⟨t.lexeme, t.line⟩

/-- A variable gets its value with or without an equals sign, or no value. -/
inductive VarDeclaration : List Token → Stmt → Prop where
  | assigned {start name equal : Token} {w e} {semicolon : Token} (hs : start.kind = .kwVar)
      (hn : name.kind = .identifier) (heq : equal.kind = .equal) (h : Phrase .assignment w e)
      (hc : semicolon.kind = .semicolon) :
      VarDeclaration (start :: name :: equal :: (w ++ [semicolon]))
        (.var (declared name) e start.line)
  | given {start name : Token} {w e} {semicolon : Token} (hs : start.kind = .kwVar)
      (hn : name.kind = .identifier)
      (h : Phrase .assignment w e) (hc : semicolon.kind = .semicolon) :
      VarDeclaration (start :: name :: (w ++ [semicolon])) (.var (declared name) e start.line)
  | bare {start name semicolon : Token} (hs : start.kind = .kwVar) (hn : name.kind = .identifier)
      (hc : semicolon.kind = .semicolon) :
      VarDeclaration [start, name, semicolon]
        (.var (declared name) (.literal .nil name.line) start.line)

/-- An expression with a semicolon, on the line of the expression. -/
inductive ExpressionStatement : List Token → Stmt → Prop where
  | mk {w e} {semicolon : Token} (h : Phrase .assignment w e) (hc : semicolon.kind = .semicolon) :
      ExpressionStatement (w ++ [semicolon]) (.expr e e.line)

/-- The first clause of a `for` with its semicolon. -/
inductive ForInitial : List Token → Option Stmt → Prop where
  | none {semicolon} (hc : semicolon.kind = .semicolon) : ForInitial [semicolon] none
  | var {w s} (h : VarDeclaration w s) : ForInitial w (some s)
  | expression {w s} (h : ExpressionStatement w s) : ForInitial w (some s)

/-- The second clause of a `for` with its semicolon. If it is empty, the condition is true. -/
inductive ForCondition : List Token → Expr → Prop where
  | none {semicolon : Token} (hc : semicolon.kind = .semicolon) :
      ForCondition [semicolon] (.literal (.boolean true) semicolon.line)
  | some {w e} {semicolon : Token} (h : Phrase .assignment w e) (hc : semicolon.kind = .semicolon) :
      ForCondition (w ++ [semicolon]) e

/-- The third clause of a `for`. -/
inductive ForUpdate : List Token → Option Expr → Prop where
  | none : ForUpdate [] none
  | some {w e} (h : Phrase .assignment w e) : ForUpdate w (some e)

/-- Names with commas between them, at least one. -/
inductive ParameterList : List Token → List Name → Prop where
  | one {t} (h : t.kind = .identifier) : ParameterList [t] [declared t]
  | more {t comma w names} (h : t.kind = .identifier) (hc : comma.kind = .comma)
      (hw : ParameterList w names) : ParameterList (t :: comma :: w) (declared t :: names)

inductive Parameters : List Token → List Name → Prop where
  | none : Parameters [] []
  | some {w names} (h : ParameterList w names) : Parameters w names

/-- A keyword with a condition in parentheses, on the line of the keyword. -/
inductive Guard (keyword : Kind) : List Token → Expr → Nat → Prop where
  | mk {start opening : Token} {w condition} {closing : Token} (hs : start.kind = keyword)
      (ho : opening.kind = .leftParen) (h : Phrase .assignment w condition)
      (hc : closing.kind = .rightParen) :
      Guard keyword (start :: opening :: (w ++ [closing])) condition start.line

/-- A `for` with its three clauses. -/
inductive ForHeader : List Token → Option Stmt → Expr → Option Expr → Nat → Prop where
  | mk {start opening : Token} {i initial c condition u update} {closing : Token}
      (hs : start.kind = .kwFor)
      (ho : opening.kind = .leftParen) (hi : ForInitial i initial) (h : ForCondition c condition)
      (hu : ForUpdate u update) (hc : closing.kind = .rightParen) :
      ForHeader (start :: opening :: (i ++ (c ++ (u ++ [closing])))) initial condition update
        start.line

/-- The tree of a `for` with the given condition and body. It is a loop. If there is an update, it
stands behind the body in a block, and if there is an initial statement, it stands before the loop
in a block. -/
inductive ForTree (condition : Expr) (body : Stmt) (line : Nat) :
    Option Stmt → Option Expr → Stmt → Prop where
  | bare : ForTree condition body line none none (.loop condition body line)
  | update {e} :
      ForTree condition body line none (some e)
        (.loop condition (.block [body, .expr e e.line] body.line) line)
  | initial {s} :
      ForTree condition body line (some s) none (.block [s, .loop condition body line] line)
  | initialUpdate {s e} :
      ForTree condition body line (some s) (some e)
        (.block [s, .loop condition (.block [body, .expr e e.line] body.line) line] line)

/-- The head of a function, up to the brace before its body. -/
inductive FunctionHead : List Token → Name → List Name → Nat → Prop where
  | mk {start name opening : Token} {w names} {closing : Token} (hs : start.kind = .kwFun)
      (hn : name.kind = .identifier) (ho : opening.kind = .leftParen) (h : Parameters w names)
      (hc : closing.kind = .rightParen) :
      FunctionHead (start :: name :: opening :: (w ++ [closing])) (declared name) names start.line

mutual

/-- The tokens of a statement, the kind of the token after them, and the tree. -/
inductive Statement : List Token → Kind → Stmt → Prop where
  | expression {w next s} (h : ExpressionStatement w s) : Statement w next s
  | print {start : Token} {w e} {semicolon : Token} {next} (hs : start.kind = .kwPrint)
      (h : Phrase .assignment w e) (hc : semicolon.kind = .semicolon) :
      Statement (start :: (w ++ [semicolon])) next (.print e start.line)
  | returnNothing {start semicolon : Token} {next} (hs : start.kind = .kwReturn)
      (hc : semicolon.kind = .semicolon) :
      Statement [start, semicolon] next (.ret (.literal .nil start.line) start.line)
  | returnValue {start : Token} {w e} {semicolon : Token} {next} (hs : start.kind = .kwReturn)
      (h : Phrase .assignment w e) (hc : semicolon.kind = .semicolon) :
      Statement (start :: (w ++ [semicolon])) next (.ret e start.line)
  | block {opening : Token} {w body} {closing : Token} {next} (ho : opening.kind = .leftBrace)
      (h : Declarations w .rightBrace body) (hc : closing.kind = .rightBrace) :
      Statement (opening :: (w ++ [closing])) next (.block body opening.line)
  | ifOnly {u condition line v yes next} (hu : Guard .kwIf u condition line)
      (hv : Statement v next yes) (hnext : next ≠ .kwElse) :
      Statement (u ++ v) next (.branch condition yes none line)
  | ifElse {u condition line v yes} {other : Token} {w no next} (hu : Guard .kwIf u condition line)
      (hv : Statement v .kwElse yes) (ho : other.kind = .kwElse) (hw : Statement w next no) :
      Statement (u ++ (v ++ other :: w)) next (.branch condition yes (some no) line)
  | whileLoop {u condition line v body next} (hu : Guard .kwWhile u condition line)
      (hv : Statement v next body) : Statement (u ++ v) next (.loop condition body line)
  | forLoop {u initial condition update line v body next s}
      (hu : ForHeader u initial condition update line) (hv : Statement v next body)
      (htree : ForTree condition body line initial update s) : Statement (u ++ v) next s

/-- The same for declarations. Variables and functions are no statements, so they are not the body
of a loop or a branch. -/
inductive Declaration : List Token → Kind → Stmt → Prop where
  | var {w next s} (h : VarDeclaration w s) : Declaration w next s
  | function {u name names line} {opening : Token} {w body} {closing : Token} {next}
      (hu : FunctionHead u name names line) (ho : opening.kind = .leftBrace)
      (h : Declarations w .rightBrace body) (hc : closing.kind = .rightBrace) :
      Declaration (u ++ opening :: (w ++ [closing])) next (.func name names body line)
  | statement {w next s} (h : Statement w next s) : Declaration w next s

/-- Declarations one after the other. -/
inductive Declarations : List Token → Kind → List Stmt → Prop where
  | nil {next} : Declarations [] next []
  | cons {w v next s ss} (h : Declaration w (firstKind v next) s) (hv : Declarations v next ss) :
      Declarations (w ++ v) next (s :: ss)

end

/-- The tokens of a program, without the token that ends the list. -/
def Program (w : List Token) (program : List Stmt) : Prop :=
  Declarations w .endOfFile program


-- ---------------------------------------------------------------------------
-- Trees of loops
-- ---------------------------------------------------------------------------

/-- The tree of a `for` is the one that `Stmt.forLoop` builds. -/
theorem forTree_iff {condition body line initial update s} :
    ForTree condition body line initial update s ↔
      s = .forLoop initial condition update body line := by
  constructor
  · intro h
    cases h <;> rfl
  · rintro rfl
    cases initial with
    | none => cases update with
      | none => exact .bare
      | some e => exact .update
    | some s => cases update with
      | none => exact .initial
      | some e => exact .initialUpdate

theorem Statement.of_forLoop {u initial condition update line v body next}
    (hu : ForHeader u initial condition update line) (hv : Statement v next body) :
    Statement (u ++ v) next (.forLoop initial condition update body line) :=
  .forLoop hu hv (forTree_iff.2 rfl)

end Grammar

end Lox
