-- SUMMARY: Every expression of a tree is on the line of a token that it was read from.
import Lox.Proofs.Parse.Pieces
import Lox.Proofs.Tree.Nodes

/-!
## Lines of trees

The parser makes up nodes that stand for something left out: the condition of a `for`, the value of
a variable, the value of a `return`. They too are on the line of a token of the phrase, so every
expression of a program is on the line of one of its tokens (`parse_stands`). For the outermost node
of an expression this token is its root (`Root.line`).
-/

namespace Lox

/-- Each of the expressions is on the line of one of the tokens. -/
def Stand (es : List Expr) (w : List Token) : Prop :=
  ∀ e ∈ es, ∃ t ∈ w, e.line = t.line

namespace Stand

variable {es es' : List Expr} {w v : List Token} {e : Expr} {t : Token}

theorem nil : Stand [] w := by
  simp [Stand]

theorem cons (ht : t ∈ w) (he : e.line = t.line) (h : Stand es w) : Stand (e :: es) w :=
  List.forall_mem_cons.2 ⟨⟨t, ht, he⟩, h⟩

theorem append (h : Stand es w) (h' : Stand es' w) : Stand (es ++ es') w :=
  List.forall_mem_append.2 ⟨h, h'⟩

theorem mono (h : Stand es w) (hw : w ⊆ v) : Stand es v := fun e he => by
  obtain ⟨t, ht, hline⟩ := h e he
  exact ⟨t, hw ht, hline⟩

theorem left (h : Stand es w) : Stand es (w ++ v) :=
  h.mono (List.subset_append_left w v)

theorem right (h : Stand es v) : Stand es (w ++ v) :=
  h.mono (List.subset_append_right w v)

theorem skip (h : Stand es w) : Stand es (t :: w) :=
  h.mono (List.subset_cons_self t w)

theorem both (h : Stand es w) (h' : Stand es' v) : Stand (es ++ es') (w ++ v) :=
  h.left.append h'.right

end Stand

namespace Grammar

-- ---------------------------------------------------------------------------
-- Expressions
-- ---------------------------------------------------------------------------

theorem Leaf.stands {t e} (h : Leaf t e) : Stand e.nodes [t] := by
  cases h with
  | true | false | nil | number | string | name => exact .cons (List.mem_singleton.2 rfl) rfl .nil

theorem Joins.stands {level op left right e w} (h : Joins level op left right e) (hop : op ∈ w)
    (hl : Stand left.nodes w) (hr : Stand right.nodes w) : Stand e.nodes w := by
  cases h with
  | or | and | equal | notEqual | less | lessEqual | greater | greaterEqual | add | sub | mul
  | div => exact .cons hop rfl (hl.append hr)

theorem Prefixes.stands {t operand e w} (h : Prefixes t operand e) (ht : t ∈ w)
    (ho : Stand operand.nodes w) : Stand e.nodes w := by
  cases h with
  | not | neg => exact .cons ht rfl ho

mutual

theorem Phrase.stands {r w e} : Phrase r w e → Stand e.nodes w
  | .loosen _ h => h.stands
  | @Phrase.assign _ name line _ _ _ ht _ hv => by
    obtain ⟨t, htw, hline⟩ := ht.stands (.var name line) (Expr.mem_nodes _)
    exact .cons (List.mem_append_left _ htw) hline hv.stands.skip.right
  | .join _ hl hv hop => hop.stands (by simp) hl.stands.left hv.stands.skip.right
  | .unary h hop => hop.stands List.mem_cons_self h.stands.skip
  | @Phrase.callNone _ _ opening _ h _ _ =>
    .cons (t := opening) (by simp) rfl (h.stands.both .nil)
  | @Phrase.call _ _ opening _ _ _ h _ ha _ =>
    .cons (t := opening) (by simp) rfl (h.stands.both ha.stands.left.skip)
  | @Phrase.property _ _ dot name h _ _ =>
    .cons (t := dot) (by simp) rfl (h.stands.both (.cons (t := name) (by simp) rfl .nil))
  | .leaf h => h.stands
  | .parens _ h _ => h.stands.left.skip

theorem ArgumentList.stands {w es} : ArgumentList w es → Stand (Expr.nodesAll es) w
  | .one h => h.stands.append .nil
  | .more h _ hv => h.stands.both hv.stands.skip

end

-- ---------------------------------------------------------------------------
-- Roots
-- ---------------------------------------------------------------------------

/-- The tokens of an expression with its rank and its tree, and the token that the outermost node
was read from. Parentheses leave no node, so they are no root. -/
inductive Root : Rank → List Token → Expr → Token → Prop where
  | loosen {r s w e t} (hr : r.tighter? = some s) (h : Root s w e t) : Root r w e t
  | assign {w name line t} {equal : Token} {v value} (h : Root (.binary .or) w (.var name line) t)
      (heq : equal.kind = .equal) (hv : Phrase .assignment v value) :
      Root .assignment (w ++ equal :: v) (.assign name value line) t
  | join {level s w left op v right e} (hr : (Rank.binary level).tighter? = some s)
      (hl : Phrase (.binary level) w left) (hv : Phrase s v right)
      (hop : Joins level op left right e) : Root (.binary level) (w ++ op :: v) e op
  | unary {t w operand e} (h : Phrase .unary w operand) (hop : Prefixes t operand e) :
      Root .unary (t :: w) e t
  | callNone {w callee} {opening closing : Token} (h : Phrase .call w callee)
      (ho : opening.kind = .leftParen) (hc : closing.kind = .rightParen) :
      Root .call (w ++ [opening, closing]) (.call callee [] opening.line) opening
  | call {w callee} {opening : Token} {v arguments} {closing : Token} (h : Phrase .call w callee)
      (ho : opening.kind = .leftParen) (ha : ArgumentList v arguments)
      (hc : closing.kind = .rightParen) :
      Root .call (w ++ opening :: (v ++ [closing])) (.call callee arguments opening.line) opening
  | property {w callee} {dot name : Token} (h : Phrase .call w callee) (hd : dot.kind = .dot)
      (hn : name.kind = .identifier) :
      Root .call (w ++ [dot, name])
        (.call callee [.literal (.string name.lexeme) name.line] dot.line) dot
  | leaf {t e} (h : Leaf t e) : Root .primary [t] e t
  | parens {opening : Token} {w inner t} {closing : Token} (ho : opening.kind = .leftParen)
      (h : Root .assignment w inner t) (hc : closing.kind = .rightParen) :
      Root .primary (opening :: (w ++ [closing])) inner t

theorem Root.phrase {r w e t} (h : Root r w e t) : Phrase r w e := by
  induction h with
  | loosen hr _ ih => exact .loosen hr ih
  | assign _ heq hv ih => exact .assign ih heq hv
  | join hr hl hv hop => exact .join hr hl hv hop
  | unary h hop => exact .unary h hop
  | callNone h ho hc => exact .callNone h ho hc
  | call h ho ha hc => exact .call h ho ha hc
  | property h hd hn => exact .property h hd hn
  | leaf h => exact .leaf h
  | parens ho _ hc ih => exact .parens ho ih hc

theorem Phrase.root {r w e} : Phrase r w e → ∃ t, Root r w e t
  | .loosen hr h => h.root.imp fun _ ht => .loosen hr ht
  | .assign h heq hv => h.root.imp fun _ ht => .assign ht heq hv
  | .join hr hl hv hop => ⟨_, .join hr hl hv hop⟩
  | .unary h hop => ⟨_, .unary h hop⟩
  | .callNone h ho hc => ⟨_, .callNone h ho hc⟩
  | .call h ho ha hc => ⟨_, .call h ho ha hc⟩
  | .property h hd hn => ⟨_, .property h hd hn⟩
  | .leaf h => ⟨_, .leaf h⟩
  | .parens ho h hc => h.root.imp fun _ ht => .parens ho ht hc

/-- An expression is on the line of its root. -/
theorem Root.line {r w e t} (h : Root r w e t) : e.line = t.line := by
  induction h with
  | loosen _ _ ih | parens _ _ _ ih => exact ih
  | assign _ _ _ ih => exact ih
  | join _ _ _ hop => cases hop <;> rfl
  | unary _ hop => cases hop <;> rfl
  | callNone | call | property => rfl
  | leaf h => cases h <;> rfl

-- ---------------------------------------------------------------------------
-- Statements
-- ---------------------------------------------------------------------------

theorem VarDeclaration.stands {w s} (h : VarDeclaration w s) : Stand s.nodes w := by
  cases h with
  | assigned _ _ _ h _ => exact h.stands.left.skip.skip.skip
  | given _ _ h _ => exact h.stands.left.skip.skip
  | @bare _ name _ _ _ _ => exact .cons (t := name) (by simp) rfl .nil

theorem ExpressionStatement.stands {w s} (h : ExpressionStatement w s) : Stand s.nodes w := by
  cases h with
  | mk h _ => exact h.stands.left

theorem ForInitial.stands {w initial} (h : ForInitial w initial) :
    Stand (Stmt.nodesElse initial) w := by
  cases h with
  | none => exact .nil
  | var h => exact h.stands
  | expression h => exact h.stands

theorem ForCondition.stands {w e} (h : ForCondition w e) : Stand e.nodes w := by
  cases h with
  | none => exact .cons (List.mem_singleton.2 rfl) rfl .nil
  | some h _ => exact h.stands.left

theorem ForUpdate.stands {w update} (h : ForUpdate w update) :
    Stand (Expr.nodesAll update.toList) w := by
  cases h with
  | none => exact .nil
  | some h => exact h.stands.append .nil

theorem Guard.stands {keyword w condition line} (h : Guard keyword w condition line) :
    Stand condition.nodes w := by
  cases h with
  | mk _ _ h _ => exact h.stands.left.skip.skip

theorem ForHeader.stands {w v initial condition update line body}
    (h : ForHeader w initial condition update line) (hbody : Stand (Stmt.nodes body) v) :
    Stand (Stmt.forLoop initial condition update body line).nodes (w ++ v) := by
  rw [Stmt.nodes_forLoop]
  cases h with
  | mk _ _ hi hc hu _ =>
    -- the tree has the body before the update
    exact hi.stands.left.skip.skip.left.append (hc.stands.left.right.skip.skip.left.append
      (hbody.right.append hu.stands.left.right.right.skip.skip.left))

mutual

theorem Statement.stands {w next s} : Statement w next s → Stand s.nodes w
  | .expression h => h.stands
  | .print _ h _ | .returnValue _ h _ => h.stands.left.skip
  | @Statement.returnNothing start _ _ _ _ => .cons (t := start) (by simp) rfl .nil
  | .block _ h _ => h.stands.left.skip
  | .ifOnly hu hv _ => hu.stands.both (hv.stands.append .nil)
  | .ifElse hu hv _ hw => hu.stands.both (hv.stands.both hw.stands.skip)
  | .whileLoop hu hv => hu.stands.both hv.stands
  | .forLoop hu hv htree => forTree_iff.1 htree ▸ hu.stands hv.stands

theorem Declaration.stands {w next s} : Declaration w next s → Stand s.nodes w
  | .var h => h.stands
  | .function _ _ h _ => h.stands.left.skip.right
  | .statement h => h.stands

theorem Declarations.stands {w next ss} : Declarations w next ss → Stand (Stmt.nodesAll ss) w
  | .nil => .nil
  | .cons h hv => h.stands.both hv.stands

end

end Grammar

/-- Also if some declarations cannot be read. -/
theorem parse_stands (ts : List Token) :
    Stand (Stmt.nodesAll (parse ts).statements) (beforeEnd ts) := by
  induction ts using parse_induction with
  | finish ts hend => exact .nil
  | turn ts r w d hturn ih =>
    have hts : ts = w ++ d.rest := hturn.takes.rest_eq
    rw [hts, beforeEnd_append hturn.takes.no_end]
    cases hturn with
    | statement _ _ hs => exact hs.stands.both ih
    | error => exact ih.right

end Lox
