-- SUMMARY: Every expression ends: with a derivation, or broken off between its brackets.
import Lox.Proofs.Grammar.Broken
import Lox.Proofs.Parse.Outcome

/-!
## Expressions

The outcome of each function for expressions, by induction on its fuel. Sixteen units for each token
are enough: between two tokens the functions nest less than sixteen deep.
-/

namespace Lox

open BracketSort Grammar

namespace Grammar

/-- Arguments with the closing parenthesis. -/
inductive ClosedArguments : List Token → List Expr → Prop where
  | none {closing : Token} (hc : closing.kind = .rightParen) : ClosedArguments [closing] []
  | some {w es} {closing : Token} (h : ArgumentList w es) (hc : closing.kind = .rightParen) :
      ClosedArguments (w ++ [closing]) es

end Grammar

namespace Parse

/-- The rank of operators of the given levels. -/
def rankOf : List Level → Rank
  | [] => .unary
  | level :: _ => .binary level

theorem tighter?_rankOf {level : Level} {tighter : List Level}
    (h : level :: tighter <:+ Level.all) :
    (Rank.binary level).tighter? = some (rankOf tighter) := by
  simp only [Level.all, List.suffix_cons_iff, List.cons.injEq, List.suffix_nil] at h
  rcases h with ⟨rfl, rfl⟩ | ⟨rfl, rfl⟩ | ⟨rfl, rfl⟩ | ⟨rfl, rfl⟩ | ⟨rfl, rfl⟩ | ⟨rfl, rfl⟩ | h
  all_goals first | rfl | cases h

theorem joins_of_join? {level : Level} {t : Token} {join : Expr → Expr → Nat → Expr}
    (h : level.join? t.kind = some join) (l r : Expr) : Joins level t l r (join l r t.line) := by
  unfold Level.join? at h
  split at h <;> cases h <;> constructor <;> assumption

theorem prefixes_of_ofKind? {t : Token} {op : UnaryOp} (h : UnaryOp.ofKind? t.kind = some op)
    (e : Expr) : Prefixes t e (.unary op e t.line) := by
  unfold UnaryOp.ofKind? at h
  split at h <;> cases h <;> constructor <;> assumption


-- ---------------------------------------------------------------------------
-- Outcomes
-- ---------------------------------------------------------------------------

/-- With enough fuel the functions for expressions end. What follows a left operand or a callee is
stated with the tokens `u` of that operand. -/
structure ExpressionsEnd (n : Nat) : Prop where
  expression : ∀ c, 16 * c.rest.length + 11 ≤ n →
    Ends [] (expression n) c (fun e w _ => Phrase .assignment w e) Fragmentary
  operators : ∀ levels c, levels <:+ Level.all → 16 * c.rest.length + levels.length + 4 ≤ n →
    Ends [] (operators n levels) c (fun e w _ => Phrase (rankOf levels) w e) Fragmentary
  operatorsAfter : ∀ level tighter left u c, level :: tighter <:+ Level.all →
    Phrase (.binary level) u left → 16 * c.rest.length + 1 ≤ n →
    Ends u (operatorsAfter n level tighter left) c (fun e w _ => Phrase (.binary level) w e)
      Fragmentary
  unary : ∀ c, 16 * c.rest.length + 3 ≤ n →
    Ends [] (unary n) c (fun e w _ => Phrase .unary w e) Fragmentary
  call : ∀ c, 16 * c.rest.length + 2 ≤ n →
    Ends [] (call n) c (fun e w _ => Phrase .call w e) Fragmentary
  callsAfter : ∀ callee u c, Phrase .call u callee → 16 * c.rest.length + 1 ≤ n →
    Ends u (callsAfter n callee) c (fun e w _ => Phrase .call w e) Fragmentary
  arguments : ∀ c, 16 * c.rest.length + 13 ≤ n →
    Ends [] (arguments n) c (fun es w _ => ClosedArguments w es) Fragmentary
  argumentList : ∀ c, 16 * c.rest.length + 12 ≤ n →
    Ends [] (argumentList n) c (fun es w _ => ArgumentList w es) Fragmentary
  primary : ∀ c, 16 * c.rest.length + 1 ≤ n →
    Ends [] (primary n) c (fun e w _ => Phrase .primary w e) Fragmentary

theorem leaf_ends {c : Cursor} {e : Expr} (h : Leaf c.current e) :
    Ends [] (leaf e) c (fun e w _ => Phrase .primary w e) Fragmentary := by
  have hc : c.current.kind ≠ .endOfFile := (h.plain.inline.proper _ (by simp)).2
  refine .advance hc fun t m _ hm => .pure ?_
  rw [← hm.current_of_cons]
  exact .leaf h


-- ---------------------------------------------------------------------------
-- One more unit of fuel
-- ---------------------------------------------------------------------------

namespace ExpressionsEnd

variable {n : Nat} (ih : ExpressionsEnd n)

include ih

theorem expression_succ (c : Cursor) (hn : 16 * c.rest.length + 11 ≤ n + 1) :
    Ends [] (Parse.expression (n + 1)) c (fun e w _ => Phrase .assignment w e) Fragmentary := by
  unfold Parse.expression
  refine (ih.operators Level.all c List.suffix_rfl (by simp [Level.all]; omega)).bind
    (fun w hw => hw) fun target w m hw htarget => .sees (fun heq => ?_) fun _ => ?_
  · refine .advance (by simp [heq]) fun equal m₁ hequal h₁ => ?_
    rw [heq] at hequal
    have hlead : Fragmentary ([] ++ w ++ [equal]) :=
      htarget.plain.fragmentary.append (Plain.single hequal).fragmentary
    refine (ih.expression m₁ ?_).bind (fun v hv => hlead.append hv)
      fun value v m₂ hv hvalue => ?_
    · have := hw.length_rest
      have := h₁.length_rest_one
      omega
    have hbroken : Fragmentary ([] ++ w ++ [equal] ++ v) :=
      hlead.append hvalue.plain.fragmentary
    cases target with
    | var name line =>
      refine .pure ?_
      simpa using Phrase.assign htarget hequal hvalue
    | _ => exact .fail hbroken (.inl (by simp))
  · exact .pure (.loosen rfl htarget)

theorem operators_succ (levels : List Level) (c : Cursor) (hlevels : levels <:+ Level.all)
    (hn : 16 * c.rest.length + levels.length + 4 ≤ n + 1) :
    Ends [] (Parse.operators (n + 1) levels) c (fun e w _ => Phrase (rankOf levels) w e)
      Fragmentary := by
  cases levels with
  | nil => exact ih.unary c (by simp at hn; omega)
  | cons level tighter =>
    have htighter : tighter <:+ Level.all := (List.suffix_cons level tighter).trans hlevels
    refine (ih.operators tighter c htighter (by simp at hn; omega)).bind (fun w hw => hw)
      fun left w m hw hleft => ?_
    have hlen := hw.length_rest
    exact ih.operatorsAfter level tighter left _ m hlevels
      (.loosen (tighter?_rankOf hlevels) hleft) (by omega)

theorem operatorsAfter_succ (level : Level) (tighter : List Level) (left : Expr) (u : List Token)
    (c : Cursor) (hlevels : level :: tighter <:+ Level.all)
    (hleft : Phrase (.binary level) u left) (hn : 16 * c.rest.length + 1 ≤ n + 1) :
    Ends u (Parse.operatorsAfter (n + 1) level tighter left) c
      (fun e w _ => Phrase (.binary level) w e) Fragmentary := by
  unfold Parse.operatorsAfter
  refine .current ?_
  cases hjoin : level.join? c.current.kind with
  | none => exact .pure hleft
  | some join =>
    have hend : c.current.kind ≠ .endOfFile := by
      intro h
      rw [h] at hjoin
      cases level <;> cases hjoin
    refine .advance hend fun t m ht hm => ?_
    rw [← ht] at hjoin
    have hjoins := joins_of_join? hjoin
    have hlead : Fragmentary (u ++ [t]) :=
      hleft.plain.fragmentary.append (hjoins left left).plain.fragmentary
    have htighter : tighter <:+ Level.all := (List.suffix_cons level tighter).trans hlevels
    have hlen := hm.length_rest_one
    have hle : tighter.length ≤ 6 := htighter.length_le
    refine (ih.operators tighter m htighter (by omega)).bind (fun v hv => hlead.append hv)
      fun right v m₁ hv hright => ?_
    have hlen₁ := hv.length_rest
    refine ih.operatorsAfter level tighter _ _ m₁ hlevels ?_ (by omega)
    simpa using Phrase.join (tighter?_rankOf hlevels) hleft hright (hjoins left right)

theorem unary_succ (c : Cursor) (hn : 16 * c.rest.length + 3 ≤ n + 1) :
    Ends [] (Parse.unary (n + 1)) c (fun e w _ => Phrase .unary w e) Fragmentary := by
  unfold Parse.unary
  refine .current ?_
  cases hop : UnaryOp.ofKind? c.current.kind with
  | none =>
    exact (ih.call c (by omega)).last (fun w hw => hw) fun e w _ he => .loosen rfl he
  | some op =>
    have hend : c.current.kind ≠ .endOfFile := by
      intro h
      rw [h] at hop
      cases hop
    refine .advance hend fun t m ht hm => ?_
    rw [← ht] at hop
    have hprefixes := prefixes_of_ofKind? hop
    have hlen := hm.length_rest_one
    refine (ih.unary m (by omega)).bind
      (fun v hv => (hprefixes (.literal .nil 0)).plain.fragmentary.append hv)
      fun operand v m₁ _ hoperand => .pure ?_
    exact .unary hoperand (hprefixes operand)

theorem call_succ (c : Cursor) (hn : 16 * c.rest.length + 2 ≤ n + 1) :
    Ends [] (Parse.call (n + 1)) c (fun e w _ => Phrase .call w e) Fragmentary := by
  unfold Parse.call
  refine (ih.primary c (by omega)).bind (fun w hw => hw) fun callee w m hw hcallee => ?_
  have hlen := hw.length_rest
  exact ih.callsAfter callee _ m (.loosen rfl hcallee) (by omega)

theorem callsAfter_succ (callee : Expr) (u : List Token) (c : Cursor)
    (hcallee : Phrase .call u callee) (hn : 16 * c.rest.length + 1 ≤ n + 1) :
    Ends u (Parse.callsAfter (n + 1) callee) c (fun e w _ => Phrase .call w e) Fragmentary := by
  unfold Parse.callsAfter
  refine .current ?_
  split
  · next hk =>
    refine .advance (by simp [hk]) fun opening m hopening hm => ?_
    rw [hk] at hopening
    have hlead : Fragmentary (u ++ [opening]) :=
      hcallee.plain.fragmentary.append (.leftParen hopening)
    have hlen := hm.length_rest_one
    refine (ih.arguments m (by omega)).bind (fun v hv => hlead.append hv)
      fun arguments v m₁ hv harguments => ?_
    have hlen₁ := hv.length_rest
    refine ih.callsAfter _ _ m₁ ?_ (by omega)
    cases harguments with
    | none hclosing => simpa using Phrase.callNone hcallee hopening hclosing
    | some h hclosing => simpa using Phrase.call hcallee hopening h hclosing
  · next hk =>
    refine .advance (by simp [hk]) fun dot m hdot hm => ?_
    rw [hk] at hdot
    have hlead : Fragmentary (u ++ [dot]) :=
      hcallee.plain.fragmentary.append (Plain.single hdot).fragmentary
    refine .expectIdentifier hlead fun name m₁ hname hm₁ => ?_
    have hlen := hm.length_rest_one
    have hlen₁ := hm₁.length_rest_one
    refine ih.callsAfter _ _ m₁ ?_ (by omega)
    simpa using Phrase.property hcallee hdot hname
  · exact .pure hcallee

theorem arguments_succ (c : Cursor) (hn : 16 * c.rest.length + 13 ≤ n + 1) :
    Ends [] (Parse.arguments (n + 1)) c (fun es w _ => ClosedArguments w es) Fragmentary := by
  unfold Parse.arguments
  refine .sees (fun _ => ?_) fun _ => ?_
  · refine .expect .nil fun closing m hclosing _ => .pure ?_
    exact .none hclosing
  · refine (ih.argumentList c (by omega)).bind (fun w hw => hw) fun es w m hw hes => ?_
    refine .expect hes.plain.fragmentary fun closing m₁ hclosing _ => .pure ?_
    exact .some hes hclosing

theorem argumentList_succ (c : Cursor) (hn : 16 * c.rest.length + 12 ≤ n + 1) :
    Ends [] (Parse.argumentList (n + 1)) c (fun es w _ => ArgumentList w es) Fragmentary := by
  unfold Parse.argumentList
  refine (ih.expression c (by omega)).bind (fun w hw => hw) fun first w m hw hfirst => ?_
  refine .eat (fun comma m₁ hcomma hm₁ => ?_) fun _ => .pure (.one hfirst)
  have hlead : Fragmentary ([] ++ w ++ [comma]) :=
    hfirst.plain.fragmentary.append (Plain.single hcomma).fragmentary
  have hlen := hw.length_rest
  have hlen₁ := hm₁.length_rest_one
  refine (ih.argumentList m₁ (by omega)).bind (fun v hv => hlead.append hv)
    fun more v m₂ _ hmore => .pure ?_
  simpa using ArgumentList.more hfirst hcomma hmore

theorem primary_succ (c : Cursor) (hn : 16 * c.rest.length + 1 ≤ n + 1) :
    Ends [] (Parse.primary (n + 1)) c (fun e w _ => Phrase .primary w e) Fragmentary := by
  unfold Parse.primary
  refine .current ?_
  split
  · next hk => exact leaf_ends (.true hk)
  · next hk => exact leaf_ends (.false hk)
  · next hk => exact leaf_ends (.nil hk)
  · next hk hv => exact leaf_ends (.number hk hv)
  · next hk hv => exact leaf_ends (.string hk hv)
  · next hk => exact leaf_ends (.name hk)
  · next hk =>
    refine .advance (by simp [hk]) fun opening m hopening hm => ?_
    rw [hk] at hopening
    have hlen := hm.length_rest_one
    have hlead : Fragmentary [opening] := .leftParen hopening
    refine (ih.expression m (by omega)).bind (fun v hv => hlead.append hv)
      fun inner v m₁ _ hinner => ?_
    refine .expect (hlead.append hinner.plain.fragmentary)
      fun closing m₂ hclosing _ => .pure ?_
    exact .parens hopening hinner hclosing
  · exact .fail .nil (.inr rfl)

end ExpressionsEnd

theorem expressionsEnd (n : Nat) : ExpressionsEnd n := by
  induction n with
  | zero => constructor <;> (intros; omega)
  | succ n ih =>
    exact ⟨ih.expression_succ, ih.operators_succ, ih.operatorsAfter_succ, ih.unary_succ,
      ih.call_succ, ih.callsAfter_succ, ih.arguments_succ, ih.argumentList_succ, ih.primary_succ⟩

end Parse

end Lox
