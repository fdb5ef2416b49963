-- SUMMARY: Every expression that the grammar derives is read.
import Lox.Proofs.Grammar.DerivationShape
import Lox.Proofs.Parse.Expressions
import Lox.Proofs.Parse.Yield

/-!
## Reading expressions

Along a derivation the parser yields its tree. A loop of the parser reads a phrase of its rank from
left to right, while the derivation has the last operator outermost; so what is stated for these
ranks is that the parser gets past the phrase and goes on with its tree as the left operand. The
token after an expression must not go on with it.
-/

namespace Lox

open Grammar

namespace Parse

-- ---------------------------------------------------------------------------
-- Tokens that go on
-- ---------------------------------------------------------------------------

def levelsFrom (level : Level) : List Level :=
  Level.all.dropWhile (· != level)

/-- The levels of operators that stand in a phrase of a rank without parentheses around them. -/
def levelsOf : Rank → List Level
  | .assignment => Level.all
  | .binary level => levelsFrom level
  | _ => []

/-- The kinds that make the parser go on after a phrase of a rank. -/
def goesOn (r : Rank) (k : Kind) : Bool :=
  (levelsOf r).any (fun level => (level.join? k).isSome) ||
    match r with
    | .primary => false
    | .assignment => k == .equal || k == .leftParen || k == .dot
    | _ => k == .leftParen || k == .dot

theorem levelsFrom_eq {level : Level} {s : Rank} (h : (Rank.binary level).tighter? = some s) :
    levelsFrom level = level :: levelsOf s := by
  cases level <;> cases h <;> rfl

theorem goesOn_tighter {r s : Rank} {k : Kind} (hr : r.tighter? = some s)
    (h : goesOn r k = false) : goesOn s k = false := by
  cases r with
  | binary level =>
    simp only [goesOn, levelsOf, levelsFrom_eq hr] at h ⊢
    cases level <;> cases hr <;> simp_all
  | _ => cases hr <;> simp_all [goesOn, levelsOf, levelsFrom, Level.all]

theorem join?_of_goesOn {level : Level} {k : Kind} (h : goesOn (.binary level) k = false) :
    level.join? k = none := by
  have hlevel : level ∈ levelsOf (.binary level) := by cases level <;> decide
  simp only [goesOn, Bool.or_eq_false_iff, List.any_eq_false] at h
  simpa using h.1 level hlevel

/-- An operator of a level does not go on with an operand of it. -/
theorem goesOn_joins {level : Level} {s : Rank} {t : Token} {l r e : Expr}
    (hs : (Rank.binary level).tighter? = some s) (h : Joins level t l r e) :
    goesOn s t.kind = false := by
  cases h <;> cases hs <;> rename_i hk <;> rw [hk] <;> rfl

theorem join?_of_joins {level : Level} {t : Token} {l r e : Expr} (h : Joins level t l r e) :
    ∃ join, level.join? t.kind = some join ∧ join l r t.line = e := by
  cases h <;> rename_i hk <;> rw [hk] <;> exact ⟨_, rfl, rfl⟩

theorem ofKind?_of_prefixes {t : Token} {operand e : Expr} (h : Prefixes t operand e) :
    ∃ op, UnaryOp.ofKind? t.kind = some op ∧ .unary op operand t.line = e := by
  cases h <;> rename_i hk <;> rw [hk] <;> exact ⟨_, rfl, rfl⟩


-- ---------------------------------------------------------------------------
-- Expressions
-- ---------------------------------------------------------------------------

/-- The function for the phrases of a rank. -/
def parserOf : Rank → Nat → Parse Expr
  | .assignment => expression
  | .binary level => fun n => operators n (levelsFrom level)
  | .unary => unary
  | .call => call
  | .primary => primary

/-- Where no token goes on with them, the tokens `w` are read as `e`. -/
def Accepts (r : Rank) (w : List Token) (e : Expr) : Prop :=
  ∀ c d, c.Takes w d → goesOn r d.current.kind = false → Yields (parserOf r) c e d

/-- For the ranks that are read by a loop, the loop gets past the tokens `w` and goes on with
`e`. -/
def Reads : Rank → List Token → Expr → Prop
  | .binary level, w, e => ∀ s, (Rank.binary level).tighter? = some s → ∀ c m d a,
      c.Takes w m → goesOn s m.current.kind = false →
      Yields (fun n => operatorsAfter n level (levelsOf s) e) m a d →
      Yields (fun n => operators n (levelsFrom level)) c a d
  | .call, w, e => ∀ c m d a,
      c.Takes w m → Yields (fun n => callsAfter n e) m a d → Yields call c a d
  | r, w, e => Accepts r w e

section

variable {r s : Rank} {level : Level} {u v w : List Token} {t opening closing : Token}
  {e left right callee : Expr} {es : List Expr} {c d : Cursor}

theorem callsAfter_yields (h : goesOn .call c.current.kind = false) (e : Expr) :
    Yields (fun n => callsAfter n e) c e c := by
  refine .succ ?_
  simp only [callsAfter]
  refine .current ?_
  split
  · next hk => rw [hk] at h; cases h
  · next hk => rw [hk] at h; cases h
  · exact .pure e c

theorem operatorsAfter_yields (h : goesOn (.binary level) c.current.kind = false)
    (tighter : List Level) (e : Expr) :
    Yields (fun n => operatorsAfter n level tighter e) c e c := by
  refine .succ ?_
  simp only [operatorsAfter]
  refine .current ?_
  rw [join?_of_goesOn h]
  exact .pure e c

theorem Reads.accepts (h : Reads r w e) : Accepts r w e := by
  cases r with
  | binary level =>
    intro c d hw hd
    obtain ⟨s, hs⟩ : ∃ s, (Rank.binary level).tighter? = some s := by cases level <;> exact ⟨_, rfl⟩
    exact h s hs c d d e hw (goesOn_tighter hs hd) (operatorsAfter_yields hd _ e)
  | call => exact fun c d hw hd => h c d d e hw (callsAfter_yields hd e)
  | _ => exact h

/-- The operands of a level are read by the function for the tighter levels. -/
theorem Accepts.operand (hs : (Rank.binary level).tighter? = some s) (h : Accepts s w e)
    (hw : c.Takes w d) (hd : goesOn s d.current.kind = false) :
    Yields (fun n => operators n (levelsOf s)) c e d := by
  have hyields := h c d hw hd
  cases level <;> cases hs
  case product =>
    refine .succ ?_
    simp only [operators, levelsOf]
    exact hyields
  all_goals exact hyields

theorem Accepts.loosen_assignment (h : Accepts (.binary .or) w e) : Accepts .assignment w e := by
  intro c d hw hd
  have hequal : d.current.kind ≠ .equal := by
    intro hk
    rw [hk] at hd
    cases hd
  show Yields expression c e d
  refine .succ ?_
  simp only [expression]
  refine .bind (h c d hw (goesOn_tighter rfl hd)) (.sees_not hequal ?_)
  exact .pure e d

theorem Accepts.loosen_binary (hs : (Rank.binary level).tighter? = some s) (h : Accepts s w e) :
    Reads (.binary level) w e := by
  intro s' hs' c m d a hw hm hafter
  obtain rfl : s = s' := Option.some.inj (hs.symm.trans hs')
  rw [levelsFrom_eq hs]
  refine .succ ?_
  simp only [operators]
  exact .bind (h.operand hs hw hm) hafter

theorem Accepts.loosen_unary (hw : StartsWith startsCall w) (h : Accepts .call w e) :
    Accepts .unary w e := by
  intro c d hd hk
  obtain ⟨t, v, rfl, ht⟩ := hw
  have hnone : UnaryOp.ofKind? t.kind = none := by
    generalize t.kind = k at ht
    cases k <;> first | rfl | cases ht
  show Yields Parse.unary c e d
  refine .succ ?_
  unfold Parse.unary
  refine .current ?_
  rw [hd.current_of_cons, hnone]
  exact h c d hd hk

theorem Accepts.loosen_call (h : Accepts .primary w e) : Reads .call w e := by
  intro c m d a hw hafter
  refine .succ ?_
  simp only [call]
  exact .bind (h c m hw rfl) hafter

theorem Reads.loosen (hr : r.tighter? = some s) (h : Phrase s w e) (hs : Reads s w e) :
    Reads r w e := by
  cases r with
  | assignment => cases hr; exact hs.accepts.loosen_assignment
  | binary level => exact hs.accepts.loosen_binary hr
  | unary => cases hr; exact hs.accepts.loosen_unary (h.first_of_call (.inl rfl))
  | call => cases hr; exact hs.accepts.loosen_call
  | primary => cases hr

theorem Accepts.assign {name : String} {line : Nat} {equal : Token} {value : Expr}
    (ht : Accepts (.binary .or) w (.var name line)) (heq : equal.kind = .equal)
    (hv : Accepts .assignment v value) :
    Accepts .assignment (w ++ equal :: v) (.assign name value line) := by
  intro c d hw hd
  obtain ⟨m, hcm, hm⟩ := hw.split
  obtain ⟨m₁, hm₁, hd₁⟩ := hm.split_cons
  have hk : m.current.kind = .equal := by rw [hm₁.current_of_cons, heq]
  show Yields expression c _ d
  refine .succ ?_
  simp only [expression]
  refine .bind (ht c m hcm (by rw [hk]; rfl)) (.sees hk (.advance hm₁ ?_))
  exact .bind (hv m₁ d hd₁ hd) (.pure _ d)

theorem Reads.join (hs : (Rank.binary level).tighter? = some s) (hl : Reads (.binary level) w left)
    (hr : Accepts s v right) (hop : Joins level t left right e) :
    Reads (.binary level) (w ++ t :: v) e := by
  intro s' hs' c m d a hw hm hafter
  obtain rfl : s = s' := Option.some.inj (hs.symm.trans hs')
  obtain ⟨m₁, hcm, hm₁⟩ := hw.split
  obtain ⟨m₂, hm₂, hm₃⟩ := hm₁.split_cons
  obtain ⟨join, hjoin, rfl⟩ := join?_of_joins hop
  refine hl s hs c m₁ d a hcm ?_ ?_
  · rw [hm₂.current_of_cons]
    exact goesOn_joins hs hop
  · refine .succ ?_
    simp only [operatorsAfter]
    refine .current ?_
    rw [hm₂.current_of_cons, hjoin]
    exact .advance hm₂ (.bind (hr.operand hs hm₃ hm) hafter)

theorem Accepts.unary (h : Accepts .unary w left) (hop : Prefixes t left e) :
    Accepts .unary (t :: w) e := by
  intro c d hw hd
  obtain ⟨m, hcm, hm⟩ := hw.split_cons
  obtain ⟨op, hkind, rfl⟩ := ofKind?_of_prefixes hop
  show Yields Parse.unary c _ d
  refine .succ ?_
  unfold Parse.unary
  refine .current ?_
  rw [hcm.current_of_cons, hkind]
  exact .advance hcm (.bind (h m d hm hd) (.pure _ d))

theorem Reads.callNone (h : Reads .call w callee) (ho : opening.kind = .leftParen)
    (hc : closing.kind = .rightParen) :
    Reads .call (w ++ [opening, closing]) (.call callee [] opening.line) := by
  intro c m d a hw hafter
  obtain ⟨m₁, hcm, hm₁⟩ := hw.split
  obtain ⟨m₂, hm₂, hm⟩ := hm₁.split_cons
  refine h c m₁ d a hcm (.succ ?_)
  simp only [callsAfter]
  refine .current ?_
  rw [hm₂.current_of_cons, ho]
  refine .advance hm₂ (.bind (m := m) (.succ ?_) hafter)
  unfold Parse.arguments
  have hk : m₂.current.kind = .rightParen := by rw [hm.current_of_cons, hc]
  exact .sees hk (.expect hc hm (.pure _ m))

/-- Before a closing parenthesis, the tokens `w` are read as the arguments `es`. -/
def AcceptsArguments (w : List Token) (es : List Expr) : Prop :=
  ∀ c d, c.Takes w d → d.current.kind = .rightParen → Yields argumentList c es d

theorem Accepts.one (h : Accepts .assignment w e) : AcceptsArguments w [e] := by
  intro c d hw hd
  refine .succ ?_
  simp only [argumentList]
  exact .bind (h c d hw (by rw [hd]; rfl)) (.eat_not (by simp [hd]) (.pure _ d))

theorem Accepts.more {comma : Token} (h : Accepts .assignment w e) (hc : comma.kind = .comma)
    (hv : AcceptsArguments v es) : AcceptsArguments (w ++ comma :: v) (e :: es) := by
  intro c d hw hd
  obtain ⟨m₁, hcm, hm₁⟩ := hw.split
  obtain ⟨m₂, hm₂, hm⟩ := hm₁.split_cons
  refine .succ ?_
  simp only [argumentList]
  refine .bind (h c m₁ hcm (by rw [hm₂.current_of_cons, hc]; rfl)) (.eat hc hm₂ ?_)
  exact .bind (hv m₂ d hm hd) (.pure _ d)

theorem Reads.call (h : Reads .call w callee) (ho : opening.kind = .leftParen)
    (hv : StartsWith startsExpression v) (ha : AcceptsArguments v es)
    (hc : closing.kind = .rightParen) :
    Reads .call (w ++ opening :: (v ++ [closing])) (.call callee es opening.line) := by
  intro c m d a hw hafter
  obtain ⟨m₁, hcm, hm₁⟩ := hw.split
  obtain ⟨m₂, hm₂, hm₃⟩ := hm₁.split_cons
  obtain ⟨m₄, hm₄, hm⟩ := hm₃.split
  have hclosing : m₄.current.kind = .rightParen := by rw [hm.current_of_cons, hc]
  have hfirst : m₂.current.kind ≠ .rightParen := hv.current_ne hm₄ rfl
  refine h c m₁ d a hcm (.succ ?_)
  simp only [callsAfter]
  refine .current ?_
  rw [hm₂.current_of_cons, ho]
  refine .advance hm₂ (.bind (m := m) (.succ ?_) hafter)
  unfold Parse.arguments
  exact .sees_not hfirst (.bind (ha m₂ m₄ hm₄ hclosing) (.expect hc hm (.pure _ m)))

theorem Reads.property {dot name : Token} (h : Reads .call w callee) (hd : dot.kind = .dot)
    (hn : name.kind = .identifier) :
    Reads .call (w ++ [dot, name])
      (.call callee [.literal (.string name.lexeme) name.line] dot.line) := by
  intro c m d a hw hafter
  obtain ⟨m₁, hcm, hm₁⟩ := hw.split
  obtain ⟨m₂, hm₂, hm⟩ := hm₁.split_cons
  refine h c m₁ d a hcm (.succ ?_)
  simp only [callsAfter]
  refine .current ?_
  rw [hm₂.current_of_cons, hd]
  exact .advance hm₂ (.expectIdentifier hn hm hafter)

theorem Accepts.leaf (h : Leaf t e) : Accepts .primary [t] e := by
  intro c d hw _
  show Yields primary c e d
  refine .succ ?_
  simp only [primary]
  refine .current ?_
  rw [hw.current_of_cons]
  cases h with
  | true h | false h | nil h | name h =>
    rw [h]
    exact .advance hw (.pure _ d)
  | number h hv | string h hv =>
    rw [h, hv]
    exact .advance hw (.pure _ d)

theorem Accepts.parens (ho : opening.kind = .leftParen) (h : Accepts .assignment w e)
    (hc : closing.kind = .rightParen) : Accepts .primary (opening :: (w ++ [closing])) e := by
  intro c d hw _
  obtain ⟨m₁, hm₁, hd⟩ := hw.split_cons
  obtain ⟨m₂, hm₂, hd⟩ := hd.split
  show Yields primary c e d
  refine .succ ?_
  simp only [primary]
  refine .current ?_
  rw [hm₁.current_of_cons, ho]
  refine .advance hm₁ (.bind (h m₁ m₂ hm₂ (by rw [hd.current_of_cons, hc]; rfl)) ?_)
  exact .expect hc hd (.pure _ d)

mutual

theorem reads_of_phrase {r w e} : Phrase r w e → Reads r w e
  | .loosen hr h => .loosen hr h (reads_of_phrase h)
  | .assign ht heq hv => .assign (reads_of_phrase ht).accepts heq (reads_of_phrase hv).accepts
  | .join hs hl hv hop => .join hs (reads_of_phrase hl) (reads_of_phrase hv).accepts hop
  | .unary h hop => .unary (reads_of_phrase h).accepts hop
  | .callNone h ho hc => .callNone (reads_of_phrase h) ho hc
  | .call h ho ha hc => .call (reads_of_phrase h) ho ha.first (accepts_of_argumentList ha) hc
  | .property h hd hn => .property (reads_of_phrase h) hd hn
  | .leaf h => .leaf h
  | .parens ho h hc => .parens ho (reads_of_phrase h).accepts hc

theorem accepts_of_argumentList {w es} : ArgumentList w es → AcceptsArguments w es
  | .one h => (reads_of_phrase h).accepts.one
  | .more h hc hv => (reads_of_phrase h).accepts.more hc (accepts_of_argumentList hv)

end

theorem expression_yields (h : Phrase .assignment w e) (hw : c.Takes w d)
    (hd : goesOn .assignment d.current.kind = false) : Yields expression c e d :=
  (reads_of_phrase h).accepts c d hw hd

end

end Parse

end Lox
