-- SUMMARY: A `for` that is parsed and run does what its clauses say.
import Lox.Proofs.ForLoop.Blocks
import Lox.Proofs.Mirror.WellFormed
import Lox.Proofs.Parse.Correct
import Lox.Proofs.Scoping.WellScoped

/-!
## The meaning of `for`

Whatever machine a `for` is run on, its tree and the loop that the clauses describe print the same
text and end the same way, or neither of them ends. The same scopes are open afterwards, and no
program that is run then, in any of the scopes that were there before, can tell which of the two
went before it (`for_means_loop`).
-/

namespace Lox

open Grammar

variable {m m' m₁ m₂ : Machine} {n old line conditionLine : Nat} {w ts : List Token} {next : Kind}
  {l : ForLoop} {s : Stmt}

-- ---------------------------------------------------------------------------
-- Tokens
-- ---------------------------------------------------------------------------

namespace Grammar

/-- The second clause of a `for` with its semicolon, as it is given. -/
inductive GivenCondition : List Token → Option Expr → Prop where
  | none {semicolon : Token} (hc : semicolon.kind = .semicolon) : GivenCondition [semicolon] none
  | some {w e} {semicolon : Token} (h : Phrase .assignment w e) (hc : semicolon.kind = .semicolon) :
      GivenCondition (w ++ [semicolon]) (some e)

/-- The tokens of a `for`, the kind of the token after them, and its clauses and body. -/
inductive ForTokens (next : Kind) : List Token → ForLoop → Prop where
  | mk {start opening : Token} {i c u} {closing : Token} {v l} (hs : start.kind = .kwFor)
      (ho : opening.kind = .leftParen) (hi : ForInitial i l.initial)
      (h : GivenCondition c l.condition) (hu : ForUpdate u l.update)
      (hc : closing.kind = .rightParen) (hv : Statement v next l.body) :
      ForTokens next (start :: opening :: (i ++ (c ++ (u ++ closing :: v)))) l

theorem ForCondition.given {c condition} (h : ForCondition c condition) :
    ∃ given conditionLine, GivenCondition c given ∧
      condition = given.getD (.literal (.boolean true) conditionLine) := by
  cases h with
  | none hc => exact ⟨Option.none, _, .none hc, rfl⟩
  | some h hc => exact ⟨Option.some _, 0, .some h hc, rfl⟩

theorem StartsWith.firstKind {p : Kind → Bool} (h : StartsWith p w) (next : Kind) :
    p (firstKind w next) = true := by
  obtain ⟨t, v, rfl, ht⟩ := h
  exact ht

/-- A statement that starts with `for` is a loop. -/
theorem Statement.for_tokens (h : Statement w next s) (hfor : firstKind w .endOfFile = .kwFor) :
    ∃ l line conditionLine, ForTokens next w l ∧ s = l.tree line conditionLine := by
  have hstart {p : Kind → Bool} (h : StartsWith p w) : p .kwFor = true := hfor ▸ h.firstKind _
  cases h with
  | forLoop hu hv htree =>
    obtain rfl := forTree_iff.1 htree
    cases hu with
    | mk hs ho hi h hu hc =>
      obtain ⟨given, conditionLine, hgiven, rfl⟩ := h.given
      refine ⟨⟨_, given, _, _⟩, _, conditionLine, ?_, rfl⟩
      simp only [List.cons_append, List.append_assoc, List.nil_append]
      exact .mk hs ho hi hgiven hu hc hv
  | expression h => cases hstart h.first
  | print hs | returnNothing hs | returnValue hs | block hs => cases hs.symm.trans hfor
  | ifOnly hu | ifElse hu | whileLoop hu => cases hstart (hu.first.append _)

theorem for_tokens_of_parse (hfor : firstKind ts .endOfFile = .kwFor)
    (hparse : parse ts = ⟨[s], []⟩) :
    ∃ l line conditionLine, ForTokens .endOfFile (beforeEnd ts) l ∧
      s = l.tree line conditionLine := by
  have hprogram := program_of_parse ts (congrArg Parsed.errors hparse)
  rw [hparse] at hprogram
  rw [← firstKind_beforeEnd] at hfor
  generalize beforeEnd ts = w at hprogram hfor ⊢
  cases hprogram with
  | cons h hv =>
    cases hv
    rw [List.append_nil] at hfor ⊢
    cases h with
    | var h => cases hfor ▸ h.first.firstKind .endOfFile
    | function hu => cases hfor ▸ (hu.first.append _).firstKind .endOfFile
    | statement h => exact h.for_tokens hfor

end Grammar

-- ---------------------------------------------------------------------------
-- What a program can tell
-- ---------------------------------------------------------------------------

/-- Two ends of a statement that look the same. -/
inductive SameResult : Except RuntimeError Completion → Except RuntimeError Completion → Prop where
  | error (e) : SameResult (.error e) (.error e)
  | normal : SameResult (.ok .normal) (.ok .normal)
  | returned {v w} (htype : v.type = w.type) (htext : v.text = w.text) :
      SameResult (.ok (.returned v)) (.ok (.returned w))

namespace Machine

/-- Two runs are both cut off, or print the same and end the same, on machines that are related. -/
inductive SameRun (r : Machine → Machine → Prop) (m₁ m₂ : Machine) :
    Option (Except RuntimeError Completion × Machine) →
      Option (Except RuntimeError Completion × Machine) → Prop where
  | cutOff : SameRun r m₁ m₂ none none
  | ended {c d m₁' m₂' text} (h₁ : m₁'.output = m₁.output ++ text)
      (h₂ : m₂'.output = m₂.output ++ text) (hcd : SameResult c d) (h : r m₁' m₂') :
      SameRun r m₁ m₂ (some (c, m₁')) (some (d, m₂'))

/-- A machine at another place. -/
def movedTo (m : Machine) (env : Environment) (callDepth : Nat) : Machine :=
  { m with env, callDepth }

/-- The next programs, so many of them, show the same on both machines, whatever they are and
wherever they are run among the scopes below `old`. -/
def Agree (old : Nat) : Nat → Machine → Machine → Prop
  | 0, _, _ => True
  | k + 1, m₁, m₂ =>
    ∀ (env : Environment) (callDepth n : Nat) (ss : List Stmt),
      env.current < old → env.global = m₁.env.global →
        SameRun (Agree old k) (m₁.movedTo env callDepth) (m₂.movedTo env callDepth)
          (execAll n ss (m₁.movedTo env callDepth)) (execAll n ss (m₂.movedTo env callDepth))

/-- What was done to a machine in two ways, to the same effect. -/
structure SameEffect (m : Machine) (o o' : Except RuntimeError Completion × Machine) : Prop where
  result : SameResult o.1 o'.1
  printed : ∃ text, o.2.output = m.output ++ text ∧ o'.2.output = m.output ++ text
  env : o.2.env = m.env ∧ o'.2.env = m.env
  agree : ∀ k, Agree m.store.size k o.2 o'.2
  /-- The same if a value that was returned is bound to a name first. -/
  agree_returned : ∀ v w, o.1 = .ok (.returned v) → o'.1 = .ok (.returned w) →
    ∀ i x, i < m.store.size → ∀ k, Agree m.store.size k
      { o.2 with store := o.2.store.define i x v } { o'.2 with store := o'.2.store.define i x w }

variable {ρ : Correspondence}

theorem Mirrors.agree (h : Mirrors ρ m₁ m₂) (hold : ∀ i < old, (ρ.on m₁).scope.rel i i) (k : Nat) :
    Agree old k m₁ m₂ := by
  induction k generalizing m₁ m₂ with
  | zero => trivial
  | succ k ih =>
    intro env callDepth n ss hcurrent hglobal
    have hat : Mirrors ρ (m₁.movedTo env callDepth) (m₂.movedTo env callDepth) :=
      h.moved hglobal rfl
    have hlevel : Level ρ (m₁.movedTo env callDepth) (m₂.movedTo env callDepth) := hold _ hcurrent
    have halongside := (runsAlongside ρ n).execAll ss hat (hlevel.ready _)
    unfold Run.Alongside at halongside
    match execAll n ss (m₁.movedTo env callDepth), execAll n ss (m₂.movedTo env callDepth),
      halongside with
    | _, _, .cutOff => exact .cutOff
    | _, _, .error h =>
      obtain ⟨text, h₁, h₂⟩ := h.printed
      exact .ended h₁ h₂ (.error _) (ih h.mirrors fun i hi => h.within.scope (hold i hi))
    | _, _, .ok h hc =>
      obtain ⟨text, h₁, h₂⟩ := h.printed
      refine .ended h₁ h₂ ?_ (ih h.mirrors fun i hi => h.within.scope (hold i hi))
      cases hc with
      | normal => exact .normal
      | returned hv => exact .returned hv.type_eq hv.text_eq

end Machine

theorem Run.Matched.sameEffect {o o' : Except RuntimeError Completion × Machine}
    (h : Run.Matched .same m m Completion.Pairs (some o) (some o')) : m.SameEffect o o' := by
  cases h with
  | error h =>
    have hold (i) (hi : i < m.store.size) := h.within.scope (i := i) (j := i) ⟨hi, rfl⟩
    refine ⟨.error _, h.printed, ⟨h.env, h.env_right⟩, h.mirrors.agree hold, ?_⟩
    rintro _ _ ⟨⟩
  | ok h hc =>
    have hold (i) (hi : i < m.store.size) := h.within.scope (i := i) (j := i) ⟨hi, rfl⟩
    have hagree := h.mirrors.agree hold
    cases hc with
    | normal =>
      refine ⟨.normal, h.printed, ⟨h.env, h.env_right⟩, hagree, ?_⟩
      rintro _ _ ⟨⟩
    | returned hv =>
      refine ⟨.returned hv.type_eq hv.text_eq, h.printed, ⟨h.env, h.env_right⟩, hagree, ?_⟩
      rintro _ _ ⟨⟩ ⟨⟩ i x hi
      have hbind := h.mirrors.bindAt x (hold i hi) hv
      exact hbind.mirrors.agree fun j hj => hbind.within.scope (hold j hj)

-- ---------------------------------------------------------------------------
-- Names that a statement does not declare
-- ---------------------------------------------------------------------------

theorem Store.Kept.holderWithin_eq {σ σ' : Store} {current g i : ScopeId} (h : σ.Kept current [] σ')
    (hσ : σ.Hung g) (hi : i < σ.size) (x : String) (n : Nat) :
    σ'.holderWithin x n i = σ.holderWithin x n i := by
  induction n generalizing i with
  | zero => rfl
  | succ n ih =>
    have hs := Array.getElem?_eq_getElem hi
    obtain ⟨s', hs', hkept⟩ := h i _ hs
    rw [ite_self] at hkept
    have hbinds : s'.binds x = σ.scopes[i].binds x := by
      rw [Bool.eq_iff_iff]
      exact ⟨fun hx => (hkept.names x hx).resolve_right List.not_mem_nil, hkept.binds x⟩
    rw [Store.holderWithin, Store.holderWithin, hs, hs']
    simp only [hbinds, hkept.parent?]
    split
    · rfl
    · split
      · rfl
      · next p hp => exact ih (Nat.lt_trans (hσ.older hs hp) hi)

/-- A statement that declares nothing where it stands leaves every name to the scope that it was
found in. -/
theorem Machine.WellFormed.holder?_of_exec {r : Except RuntimeError Completion} (hm : m.WellFormed)
    (hs : s.declared = []) (h : Lox.exec n s m = some (r, m')) (x : String) :
    m'.store.holder? x m'.env.current = m.store.holder? x m.env.current := by
  have hkept := exec_kept h
  rw [hs] at hkept
  rw [hkept.env]
  exact hkept.scopes.holderWithin_eq hm.mirrors.hung hm.current x _

-- ---------------------------------------------------------------------------
-- Loops
-- ---------------------------------------------------------------------------

theorem Grammar.ForTokens.body_declared (h : ForTokens next w l) : l.body.declared = [] := by
  cases h with
  | mk _ _ _ _ _ _ hv => exact hv.sentence.2

namespace ForLoop

variable {o : Except RuntimeError Completion × Machine}

theorem run_of_exec (hm : m.WellFormed) (hbody : l.body.declared = [])
    (h : exec n (l.tree line conditionLine) m = some o) :
    ∃ k o', l.run k m = some o' ∧ m.SameEffect o o' := by
  have hmatched := run_matched (n + 4) hbody hm.mirrors hm.level
  rw [(l.exec_tree line conditionLine n).1 m o h] at hmatched
  cases ho' : l.run (n + 4) m with
  | none => rw [ho'] at hmatched; cases hmatched
  | some o' => rw [ho'] at hmatched; exact ⟨_, o', ho', hmatched.sameEffect⟩

theorem exec_of_run (hm : m.WellFormed) (hbody : l.body.declared = [])
    (h : l.run n m = some o) (line conditionLine : Nat) :
    ∃ k o', exec k (l.tree line conditionLine) m = some o' ∧ m.SameEffect o' o := by
  have hmatched := run_matched n hbody hm.mirrors hm.level
  rw [h] at hmatched
  cases ho' : l.runInBlocks n m with
  | none => rw [ho'] at hmatched; cases hmatched
  | some o' =>
    rw [ho'] at hmatched
    exact ⟨_, o', (l.exec_tree line conditionLine n).2 m o' ho', hmatched.sameEffect⟩

end ForLoop

/-- A token list that starts with `for` and is parsed as one statement consists of clauses and a
body. On every machine the tree and the loop with these clauses and this body end with some fuel or
do not end with any, and have the same effect. The body leaves the update all names as they were. -/
theorem for_means_loop {callLimit defined : Nat} {builtins : List Builtin}
    (hfor : firstKind ts .endOfFile = .kwFor) (hparse : parse ts = ⟨[s], []⟩)
    (hbuiltins : ∀ b ∈ builtins, b.Parametric)
    (hm : (Machine.start callLimit builtins defined).Meets m) :
    ∃ l, ForTokens .endOfFile (beforeEnd ts) l ∧
      (∀ n o, exec n s m = some o → ∃ k o', l.run k m = some o' ∧ m.SameEffect o o') ∧
      (∀ n o', l.run n m = some o' → ∃ k o, exec k s m = some o ∧ m.SameEffect o o') ∧
      ∀ n r m', exec n l.body m = some (r, m') → m'.env = m.env ∧
        ∀ x, m'.store.holder? x m'.env.current = m.store.holder? x m.env.current := by
  have hwell := hm.wellFormed (.start callLimit defined hbuiltins)
  obtain ⟨l, line, conditionLine, htokens, rfl⟩ := for_tokens_of_parse hfor hparse
  have hbody := htokens.body_declared
  refine ⟨l, htokens, fun n o h => ?_, fun n o h => ?_, fun n r m' h => ?_⟩
  · exact ForLoop.run_of_exec hwell hbody h
  · exact ForLoop.exec_of_run hwell hbody h line conditionLine
  · exact ⟨(exec_kept h).env, hwell.holder?_of_exec hbody h⟩

/-- `for (var i = nil; i == nil; i = true) print i;` takes one turn. -/
theorem loop_takes_one_turn :
    let t (kind : Kind) (lexeme : String) : Token := ⟨kind, lexeme, 1, none⟩
    let ts := [t .kwFor "for", t .leftParen "(", t .kwVar "var", t .identifier "i", t .equal "=",
      t .kwNil "nil", t .semicolon ";", t .identifier "i", t .equalEqual "==", t .kwNil "nil",
      t .semicolon ";", t .identifier "i", t .equal "=", t .kwTrue "true", t .rightParen ")",
      t .kwPrint "print", t .identifier "i", t .semicolon ";", .endOfFile 1]
    let m := Machine.start 9 [.clock 0] 1
    firstKind ts .endOfFile = .kwFor ∧ (∃ s, parse ts = ⟨[s], []⟩) ∧
      (∀ b ∈ [Builtin.clock 0], b.Parametric) ∧ m.Meets m ∧
      ∃ l k o, ForTokens .endOfFile (beforeEnd ts) l ∧ l.run k m = some o ∧ o.2.env = m.env ∧
        o.2.output = "nil\n" := by
  intro t ts m
  have hbuiltins : ∀ b ∈ [Builtin.clock 0], b.Parametric :=
    List.forall_mem_singleton.2 (Builtin.parametric_clockOf _)
  have hmeets : m.Meets m := ⟨m, 0, [], .start, .start (.self _)⟩
  have hparse : parse ts = ⟨[_], []⟩ := rfl
  obtain ⟨l, htokens, hforward, -⟩ := for_means_loop rfl hparse hbuiltins hmeets
  obtain ⟨k, o, hrun, heffect⟩ := hforward 20 _ rfl
  obtain ⟨text, htree, hloop⟩ := heffect.printed
  refine ⟨rfl, ⟨_, hparse⟩, hbuiltins, hmeets, l, k, o, htokens, hrun, heffect.env.2, ?_⟩
  rw [hloop, ← htree]
  rfl

end Lox
