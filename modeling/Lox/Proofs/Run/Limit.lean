-- SUMMARY: The limit on open calls cuts runs that nest too deep, and does nothing to others.
import Lox.Proofs.Attempt
import Lox.Proofs.Run.Host
import Lox.Proofs.Run.Nesting

/-!
## The limit on open calls

A lower limit on open calls does one of two things to a run. If the run nests its calls deeper than
the limit, it now fails at the first call that is one too many, behind a part of what it printed.
Any other run stays as it is (`limit_only_cuts`). Every rule below says when the limit stops a run
that is put together, in terms of its pieces, so the code that is stopped is found phase by phase.
-/

namespace Lox

open Attempt

/-- The machine with another limit on open calls. -/
def Machine.limitedTo (m : Machine) (d : Nat) : Machine :=
  { m with callLimit := d }

-- ---------------------------------------------------------------------------
-- Steps under a lower limit
-- ---------------------------------------------------------------------------

namespace Run

variable {α β : Type} {d n line : Nat} {p q : Machine → Prop} {m : Machine}

/-- With the limit `d` the run fails at a call that is one too many, and what it has printed by then
is a part of what it prints without that limit. -/
def StopsAt (d : Nat) (x : Run α) (m : Machine) : Prop :=
  ∃ line m₁, x (m.limitedTo d) = some (.error ⟨.recursionLimit d, some line⟩, m₁) ∧
    ∀ r m', x m = some (r, m') → ∃ text, m'.output = m₁.output ++ text

/-- On machines that allow no less than `d` calls and are in no more than that, the limit `d` stops
`x` where `deep` holds and does nothing to it elsewhere. -/
structure CutAt (d : Nat) (deep : Machine → Prop) (x : Run α) : Prop where
  restored : ∀ {m r m'}, x m = some (r, m') → m.Restored m'
  same : ∀ {m}, m.callDepth ≤ d → d ≤ m.callLimit → ¬ deep m →
    x (m.limitedTo d) = (x m).map fun o => (o.1, o.2.limitedTo d)
  stops : ∀ {m}, m.callDepth ≤ d → d ≤ m.callLimit → deep m → StopsAt d x m

theorem callBuiltin_limitedTo (d : Nat) (f : Native) (vs : List Value) (line : Nat) (m : Machine) :
    callBuiltin f vs line (m.limitedTo d) =
      (callBuiltin f vs line m).map fun o => (o.1, o.2.limitedTo d) := by
  have hbuiltins : (m.limitedTo d).builtins = m.builtins := rfl
  rw [callBuiltin_apply, callBuiltin_apply, hbuiltins]
  cases m.builtins.find? fun b => b.name == f.name with
  | none => rfl
  | some b =>
    show located line (b.run vs m.moment) (m.tick.limitedTo d) =
      (located line (b.run vs m.moment) m.tick).map _
    cases b.run vs m.moment <;> rfl

namespace CutAt

theorem congr {x : Run α} (h : CutAt d p x) (hpq : ∀ m, m.callDepth ≤ d → (p m ↔ q m)) :
    CutAt d q x where
  restored := h.restored
  same hm hd hq := h.same hm hd (hq ∘ (hpq _ hm).1)
  stops hm hd hq := h.stops hm hd ((hpq _ hm).2 hq)

theorem holding {P : Prop} {x : Run α} (h : CutAt d p x) (hP : P) :
    CutAt d (fun m => P ∧ p m) x :=
  h.congr fun _ _ => (and_iff_right hP).symm

theorem barred {P : Prop} {x : Run α} (h : CutAt d (fun _ => False) x) (hP : ¬ P) :
    CutAt d (fun m => P ∧ p m) x :=
  h.congr fun _ _ => (iff_false_intro fun h => hP h.1).symm

/-- A step that does not look at the limit. -/
theorem step {w : List String} {P : α → Prop} {x : Run α} (hkept : Discipline.kept.Keeps w x P)
    (hsame : ∀ m, x (m.limitedTo d) = (x m).map fun o => (o.1, o.2.limitedTo d)) :
    CutAt d (fun _ => False) x where
  restored h := (hkept _ _ _ trivial h).1.restored
  same _ _ _ := hsame _
  stops _ _ := False.elim

theorem pure (a : α) : CutAt d (fun _ => False) (Pure.pure a : Run α) :=
  step (w := []) (.pure (P := fun _ => True) trivial) fun _ => rfl

theorem fail (fault : Fault) : CutAt d (fun _ => False) (Run.fail fault line : Run α) :=
  step (w := []) (.fail (P := fun _ => True) fault line) fun _ => rfl

theorem cutOff : CutAt d (fun _ => False) (Attempt.cutOff : Run α) :=
  step (w := []) (.cutOff (P := fun _ => True)) fun _ => rfl

theorem located (x : Except Fault α) : CutAt d (fun _ => False) (Run.located line x) := by
  cases x with
  | ok a => exact pure a
  | error fault => exact fail fault

theorem print (text : String) : CutAt d (fun _ => False) (Run.print text) :=
  step (.print text) fun _ => rfl

theorem define (name : String) (v : Value) : CutAt d (fun _ => False) (Run.define name v) :=
  step (.define name trivial) fun _ => rfl

theorem declare (name : String) (parameters : List String) (body : List Stmt) :
    CutAt d (fun _ => False) (Run.declare name parameters body) :=
  step (.declare name parameters fun _ _ => trivial) fun _ => rfl

theorem lookup (name : String) : CutAt d (fun _ => False) (Run.lookup name line) := by
  refine step (.lookup name line) fun m => ?_
  have hlookup : (m.limitedTo d).lookup name = m.lookup name := rfl
  rw [Run.lookup, bind_apply, bind_apply, gets_apply, gets_apply, hlookup]
  cases m.lookup name <;> rfl

theorem assign (name : String) (v : Value) : CutAt d (fun _ => False) (Run.assign name v line) := by
  refine step (.assign (e := .var name line) line trivial trivial) fun m => ?_
  have hholder : (m.limitedTo d).store.holder? name (m.limitedTo d).env.current =
      m.store.holder? name m.env.current := rfl
  rw [Run.assign, tryStep_apply, tryStep_apply, hholder]
  cases m.store.holder? name m.env.current <;> rfl

theorem checkCount (name : String) (expected got : Nat) :
    CutAt d (fun _ => False) (Run.checkCount name expected got line) := by
  unfold Run.checkCount
  split
  · exact pure ()
  · exact fail _

theorem callBuiltin (f : Native) (vs : List Value) :
    CutAt d (fun _ => False) (Run.callBuiltin f vs line) :=
  step (.callBuiltin f line fun _ _ => trivial) (callBuiltin_limitedTo d f vs line)

theorem bind {q : α → Machine → Prop} {x : Run α} {f : α → Run β} (hx : CutAt d p x)
    (hf : ∀ a, CutAt d (q a) (f a)) :
    CutAt d (fun m => p m ∨ ∃ a m₁, x m = some (.ok a, m₁) ∧ q a m₁) (x >>= f) where
  restored {m r m'} h := by
    rcases bind_eq_some h with ⟨e, hxm, -⟩ | ⟨a, m₁, hxm, hfm⟩
    · exact hx.restored hxm
    · exact (hx.restored hxm).trans ((hf a).restored hfm)
  same {m} hm hd hnot := by
    obtain ⟨hp, hq⟩ := not_or.1 hnot
    rw [bind_apply, bind_apply, hx.same hm hd hp]
    match hxm : x m with
    | none => rfl
    | some (.error e, m₁) => rfl
    | some (.ok a, m₁) =>
      have hkept := hx.restored hxm
      exact (hf a).same (hkept.callDepth ▸ hm) (hkept.callLimit ▸ hd) fun h => hq ⟨a, m₁, hxm, h⟩
  stops {m} hm hd hdeep := by
    by_cases hp : p m
    · obtain ⟨line, m₁, hstop, hprinted⟩ := hx.stops hm hd hp
      refine ⟨line, m₁, bind_eq_error_iff.2 (.inl hstop), fun r m' h => ?_⟩
      rcases bind_eq_some h with ⟨e, hxm, -⟩ | ⟨a, m₂, hxm, hfm⟩
      · exact hprinted _ _ hxm
      · obtain ⟨t, ht⟩ := hprinted _ _ hxm
        obtain ⟨u, hu⟩ := ((hf a).restored hfm).output
        exact ⟨t ++ u, by rw [hu, ht, String.append_assoc]⟩
    · obtain ⟨a, m₁, hxm, hq⟩ := hdeep.resolve_left hp
      have hkept := hx.restored hxm
      obtain ⟨line, m₂, hstop, hprinted⟩ :=
        (hf a).stops (hkept.callDepth ▸ hm) (hkept.callLimit ▸ hd) hq
      have hxd : x (m.limitedTo d) = some (.ok a, m₁.limitedTo d) := by
        rw [hx.same hm hd hp, hxm]
        rfl
      refine ⟨line, m₂, bind_eq_error_iff.2 (.inr ⟨a, _, hxd, hstop⟩), fun r m' h => ?_⟩
      refine hprinted r m' ?_
      rwa [bind_apply, hxm] at h

theorem followed {x : Run α} {f : α → Run β} (hx : CutAt d p x)
    (hf : ∀ a, CutAt d (fun _ => False) (f a)) : CutAt d p (x >>= f) :=
  (bind hx hf).congr fun m _ => by simp

theorem inScope {x : Run α} (bs : List (String × Value)) (hx : CutAt d p x) :
    CutAt d (fun m => p (m.enter bs)) (Run.inScope bs x) where
  restored h := by
    obtain ⟨m₁, hxm, rfl⟩ := inScope_eq_some_iff.1 h
    exact (hx.restored hxm).leave
  same {m} hm hd hp := by
    have hsame : x ((m.limitedTo d).enter bs) = _ := hx.same (m := m.enter bs) hm hd hp
    rw [inScope_apply, inScope_apply, hsame, Option.map_map, Option.map_map]
    rfl
  stops {m} hm hd hp := by
    obtain ⟨line, m₁, hstop, hprinted⟩ := hx.stops (m := m.enter bs) hm hd hp
    refine ⟨line, m₁.leave, inScope_eq_some_iff.2 ⟨m₁, hstop, rfl⟩, fun r m' h => ?_⟩
    obtain ⟨m₂, hxm, rfl⟩ := inScope_eq_some_iff.1 h
    exact hprinted r m₂ hxm

/-- A call is stopped if there are `d` calls around it, or if its body is stopped. -/
theorem frame {x : Run α} {i : ScopeId} (hx : CutAt d p x) :
    CutAt d (fun m => m.callDepth < m.callLimit ∧ (d ≤ m.callDepth ∨ p (m.calling i)))
      (do Run.checkDepth line; Run.inFrame i x) where
  restored {m r m'} h := by
    by_cases hlt : m.callDepth < m.callLimit
    · rw [checkDepth_room _ hlt] at h
      obtain ⟨m₁, hxm, rfl⟩ := inFrame_eq_some_iff.1 h
      exact (hx.restored hxm).back
    · rw [checkDepth_full _ (Nat.le_of_not_lt hlt)] at h
      cases h
      exact .refl m
  same {m} hm hd hnot := by
    by_cases hlt : m.callDepth < m.callLimit
    · obtain ⟨hroom, hp⟩ := not_or.1 fun h => hnot ⟨hlt, h⟩
      have hroom : m.callDepth < d := Nat.lt_of_not_le hroom
      have hsame : x ((m.limitedTo d).calling i) = _ := hx.same (m := m.calling i) hroom hd hp
      rw [checkDepth_room _ hlt, checkDepth_room (m := m.limitedTo d) _ hroom, inFrame_apply,
        inFrame_apply, hsame, Option.map_map, Option.map_map]
      rfl
    · have hfull : m.callLimit ≤ m.callDepth := Nat.le_of_not_lt hlt
      obtain rfl : m.callLimit = d := Nat.le_antisymm (Nat.le_trans hfull hm) hd
      rw [checkDepth_full _ hfull, checkDepth_full (m := m.limitedTo m.callLimit) _ hfull]
      rfl
  stops {m} hm hd hdeep := by
    obtain ⟨hlt, hdeep⟩ := hdeep
    by_cases hroom : m.callDepth < d
    · obtain ⟨line', m₁, hstop, hprinted⟩ :=
        hx.stops (m := m.calling i) hroom hd (hdeep.resolve_left (Nat.not_le.2 hroom))
      refine ⟨line', m₁.returningTo m, ?_, fun r m' h => ?_⟩
      · rw [checkDepth_room (m := m.limitedTo d) _ hroom]
        exact inFrame_eq_some_iff.2 ⟨m₁, hstop, rfl⟩
      · rw [checkDepth_room _ hlt] at h
        obtain ⟨m₂, hxm, rfl⟩ := inFrame_eq_some_iff.1 h
        exact hprinted r m₂ hxm
    · have hfull : d ≤ m.callDepth := Nat.le_of_not_lt hroom
      refine ⟨line, m.limitedTo d, checkDepth_full (m := m.limitedTo d) _ hfull, fun r m' h => ?_⟩
      rw [checkDepth_room _ hlt] at h
      obtain ⟨m₁, hxm, rfl⟩ := inFrame_eq_some_iff.1 h
      exact (hx.restored hxm).output

end CutAt
end Run

-- ---------------------------------------------------------------------------
-- Runs under a lower limit
-- ---------------------------------------------------------------------------

/-- The limit `d` stops exactly the runs with `n` units of fuel that nest too deep for it. -/
structure RunsCut (d n : Nat) : Prop where
  eval : ∀ e : Expr, Run.CutAt d (fun m => Phase.Deep d ⟨n, .eval e, m⟩) (eval n e)
  evalAll : ∀ es, Run.CutAt d (fun m => Phase.Deep d ⟨n, .evalAll es, m⟩) (evalAll n es)
  call : ∀ f vs line, Run.CutAt d (fun m => Phase.Deep d ⟨n, .call f vs line, m⟩) (call n f vs line)
  exec : ∀ s : Stmt, Run.CutAt d (fun m => Phase.Deep d ⟨n, .exec s, m⟩) (exec n s)
  execAll : ∀ ss, Run.CutAt d (fun m => Phase.Deep d ⟨n, .execAll ss, m⟩) (execAll n ss)

namespace Run.CutAt

variable {α : Type} {d n : Nat} {k k' : Code} {x : Run α}

/-- A phase without parts is not stopped. -/
theorem alone {n : Nat} (h : CutAt d (fun _ => False) x)
    (hnone : ∀ m j c, ¬ Phase.Part j ⟨n, k, m⟩ c) :
    CutAt d (fun m => Phase.Deep d ⟨n, k, m⟩) x := by
  refine h.congr fun m hm => ⟨False.elim, fun hdeep => ?_⟩
  obtain ⟨j, c, hpart, -⟩ := hdeep.part hm
  exact hnone m j c hpart

/-- A phase with one part is stopped where that part is stopped. -/
theorem only (h : CutAt d (fun m => Phase.Deep d ⟨n, k', m⟩) x) (hk : k.first? = some k')
    (honly : ∀ m j c, Phase.Part j ⟨n + 1, k, m⟩ c → c = ⟨n, k', m⟩) :
    CutAt d (fun m => Phase.Deep d ⟨n + 1, k, m⟩) x := by
  refine h.congr fun m hm => ⟨.of_part (.first hk), fun hdeep => ?_⟩
  obtain ⟨j, c, hpart, hc⟩ := hdeep.part hm
  exact honly m j c hpart ▸ hc

end Run.CutAt

namespace RunsCut

variable {d n : Nat} (ih : RunsCut d n)

include ih

theorem eval_succ (e : Expr) :
    Run.CutAt d (fun m => Phase.Deep d ⟨n + 1, .eval e, m⟩) (Lox.eval (n + 1) e) := by
  cases e with
  | literal l => exact (Run.CutAt.pure _).alone (by rintro _ _ _ (hk | _); cases hk)
  | var name line => exact (Run.CutAt.lookup name).alone (by rintro _ _ _ (hk | _); cases hk)
  | assign name value line =>
    exact .only ((ih.eval value).followed fun v => (Run.CutAt.assign name v).followed fun _ =>
      .pure v) rfl (by rintro _ _ _ (hk | _); cases hk; rfl)
  | binary op left right line =>
    refine ((ih.eval left).bind fun v => (ih.eval right).followed fun w => .located _).congr
      fun m hm => ⟨?_, fun h => ?_⟩
    · rintro (h | ⟨v, m₁, hv, h⟩)
      · exact h.of_part (.first rfl)
      · exact h.of_part (.right hv)
    · obtain ⟨j, c, hpart, h⟩ := h.part hm
      cases hpart with
      | first hk => cases hk; exact .inl h
      | right hv => exact .inr ⟨_, _, hv, h⟩
  | logical op left right line =>
    refine ((ih.eval left).bind
      (q := fun v m => (v.isNil = true ↔ op = .or) ∧ Phase.Deep d ⟨n, .eval right, m⟩)
      fun v => ?_).congr fun m hm => ⟨?_, fun h => ?_⟩
    · cases op <;> cases v.isNil
      · exact (ih.eval right).holding (by decide)
      · exact (Run.CutAt.pure _).barred (by decide)
      · exact (Run.CutAt.pure _).barred (by decide)
      · exact (ih.eval right).holding (by decide)
    · rintro (h | ⟨v, m₁, hv, hop, h⟩)
      · exact h.of_part (.first rfl)
      · exact h.of_part (.logicalRight hv hop)
    · obtain ⟨j, c, hpart, h⟩ := h.part hm
      cases hpart with
      | first hk => cases hk; exact .inl h
      | logicalRight hv hop => exact .inr ⟨_, _, hv, hop, h⟩
  | unary op operand line =>
    exact .only ((ih.eval operand).followed fun v => .located _) rfl
      (by rintro _ _ _ (hk | _); cases hk; rfl)
  | group inner line => exact .only (ih.eval inner) rfl (by rintro _ _ _ (hk | _); cases hk; rfl)
  | call callee es line =>
    refine ((ih.eval callee).bind fun f => (ih.evalAll es).bind fun vs => ih.call f vs line).congr
      fun m hm => ⟨?_, fun h => ?_⟩
    · rintro (h | ⟨f, m₁, hf, h | ⟨vs, m₂, hvs, h⟩⟩)
      · exact h.of_part (.first rfl)
      · exact h.of_part (.arguments hf)
      · exact h.of_part (.call hf hvs)
    · obtain ⟨j, c, hpart, h⟩ := h.part hm
      cases hpart with
      | first hk => cases hk; exact .inl h
      | arguments hf => exact .inr ⟨_, _, hf, .inl h⟩
      | call hf hvs => exact .inr ⟨_, _, hf, .inr ⟨_, _, hvs, h⟩⟩

theorem evalAll_succ (es : List Expr) :
    Run.CutAt d (fun m => Phase.Deep d ⟨n + 1, .evalAll es, m⟩) (Lox.evalAll (n + 1) es) := by
  cases es with
  | nil => exact (Run.CutAt.pure _).alone (by rintro _ _ _ (hk | _); cases hk)
  | cons e es =>
    refine ((ih.eval e).bind fun v => (ih.evalAll es).followed fun vs => .pure _).congr
      fun m hm => ⟨?_, fun h => ?_⟩
    · rintro (h | ⟨v, m₁, hv, h⟩)
      · exact h.of_part (.first rfl)
      · exact h.of_part (.tail hv)
    · obtain ⟨j, c, hpart, h⟩ := h.part hm
      cases hpart with
      | first hk => cases hk; exact .inl h
      | tail hv => exact .inr ⟨_, _, hv, h⟩

theorem call_succ (f : Value) (vs : List Value) (line : Nat) :
    Run.CutAt d (fun m => Phase.Deep d ⟨n + 1, .call f vs line, m⟩)
      (Lox.call (n + 1) f vs line) := by
  cases f with
  | function f =>
    have hbody := ((ih.execAll f.body).followed fun c => .pure c.value).inScope
      (f.parameters.zip vs)
    refine ((Run.CutAt.checkCount f.name f.arity vs.length).bind fun _ => hbody.frame).congr
      fun m hm => ⟨?_, fun h => ?_⟩
    · rintro (⟨⟨⟩⟩ | ⟨_, m₁, hcheck, hlt, h⟩)
      obtain ⟨hcount, rfl⟩ := Run.checkCount_eq_ok_iff.1 hcheck
      have hpart : Phase.Part 1 ⟨n + 1, .call (.function f) vs line, m⟩ _ := .body hcount hlt
      rcases h with hfull | h
      · exact ⟨_, _, .part hpart (.self _), Nat.lt_succ_of_le hfull⟩
      · exact h.of_part hpart
    · obtain ⟨j, c, hpart, h⟩ := h.part hm
      cases hpart with
      | first hk => cases hk
      | body hcount hlt =>
        exact .inr ⟨(), m, Run.checkCount_eq_ok_iff.2 ⟨hcount, rfl⟩, hlt, .inr h⟩
  | native f =>
    refine ((Run.CutAt.checkCount _ _ _).followed fun _ => .callBuiltin f vs).alone ?_
    rintro _ _ _ (hk | _)
    cases hk
  | number | string | boolean | nil =>
    exact (Run.CutAt.fail _).alone (by rintro _ _ _ (hk | _); cases hk)

theorem branch_succ (condition : Expr) (yes : Stmt) (no : Option Stmt) (line : Nat) :
    Run.CutAt d (fun m => Phase.Deep d ⟨n + 1, .exec (.branch condition yes no line), m⟩)
      (Lox.exec (n + 1) (.branch condition yes no line)) := by
  cases no with
  | none =>
    refine ((ih.eval condition).bind
      (q := fun v m => v.isTrue = true ∧ Phase.Deep d ⟨n, .exec yes, m⟩) fun v => ?_).congr
      fun m hm => ⟨?_, fun h => ?_⟩
    · split
      · next hv => exact (ih.exec yes).holding hv
      · next hv => exact (Run.CutAt.pure _).barred hv
    · rintro (h | ⟨v, m₁, hcondition, hv, h⟩)
      · exact h.of_part (.first rfl)
      · exact h.of_part (.yes hcondition hv)
    · obtain ⟨j, c, hpart, h⟩ := h.part hm
      cases hpart with
      | first hk => cases hk; exact .inl h
      | yes hcondition hv => exact .inr ⟨_, _, hcondition, hv, h⟩
  | some no =>
    refine ((ih.eval condition).bind
      (q := fun v m => Phase.Deep d ⟨n, .exec (if v.isTrue then yes else no), m⟩)
      fun v => ?_).congr fun m hm => ⟨?_, fun h => ?_⟩
    · split
      · exact ih.exec yes
      · exact ih.exec no
    · rintro (h | ⟨v, m₁, hcondition, h⟩)
      · exact h.of_part (.first rfl)
      · split at h
        · next hv => exact h.of_part (.yes hcondition hv)
        · next hv => exact h.of_part (.no hcondition (Bool.eq_false_iff.2 hv))
    · obtain ⟨j, c, hpart, h⟩ := h.part hm
      cases hpart with
      | first hk => cases hk; exact .inl h
      | yes hcondition hv => exact .inr ⟨_, _, hcondition, by rwa [if_pos hv]⟩
      | no hcondition hv => exact .inr ⟨_, _, hcondition, by rwa [if_neg (by simp [hv])]⟩

theorem loop_succ (condition : Expr) (body : Stmt) (line : Nat) :
    Run.CutAt d (fun m => Phase.Deep d ⟨n + 1, .exec (.loop condition body line), m⟩)
      (Lox.exec (n + 1) (.loop condition body line)) := by
  refine ((ih.eval condition).bind
    (q := fun v m => v.isTrue = true ∧ (Phase.Deep d ⟨n, .exec body, m⟩ ∨
      ∃ c m₁, Lox.exec n body m = some (.ok c, m₁) ∧ c = .normal ∧
        Phase.Deep d ⟨n, .exec (.loop condition body line), m₁⟩))
    fun v => ?_).congr fun m hm => ⟨?_, fun h => ?_⟩
  · split
    · next hv =>
      refine ((ih.exec body).bind fun c => ?_).holding hv
      cases c with
      | normal => exact (ih.exec (.loop condition body line)).holding rfl
      | returned v => exact (Run.CutAt.pure _).barred nofun
    · next hv => exact (Run.CutAt.pure _).barred hv
  · rintro (h | ⟨v, m₁, hcondition, hv, h | ⟨_, m₂, hbody, rfl, h⟩⟩)
    · exact h.of_part (.first rfl)
    · exact h.of_part (.turn hcondition hv)
    · exact h.of_part (.again hcondition hv hbody)
  · obtain ⟨j, c, hpart, h⟩ := h.part hm
    cases hpart with
    | first hk => cases hk; exact .inl h
    | turn hcondition hv => exact .inr ⟨_, _, hcondition, hv, .inl h⟩
    | again hcondition hv hbody => exact .inr ⟨_, _, hcondition, hv, .inr ⟨_, _, hbody, rfl, h⟩⟩

theorem exec_succ (s : Stmt) :
    Run.CutAt d (fun m => Phase.Deep d ⟨n + 1, .exec s, m⟩) (Lox.exec (n + 1) s) := by
  cases s with
  | expr e | ret e =>
    exact .only ((ih.eval e).followed fun v => .pure _) rfl
      (by rintro _ _ _ (hk | _); cases hk; rfl)
  | print e =>
    exact .only ((ih.eval e).followed fun v => (Run.CutAt.print _).followed fun _ => .pure _) rfl
      (by rintro _ _ _ (hk | _); cases hk; rfl)
  | var name e =>
    exact .only ((ih.eval e).followed fun v => (Run.CutAt.define _ v).followed fun _ => .pure _) rfl
      (by rintro _ _ _ (hk | _); cases hk; rfl)
  | func name parameters body =>
    refine ((Run.CutAt.declare _ _ body).followed fun _ => .pure _).alone ?_
    rintro _ _ _ (hk | _)
    cases hk
  | block body =>
    refine ((ih.execAll body).inScope []).congr fun m hm => ⟨.of_part .block, fun h => ?_⟩
    obtain ⟨j, c, hpart, h⟩ := h.part hm
    cases hpart with
    | first hk => cases hk
    | block => exact h
  | branch condition yes no line => exact ih.branch_succ condition yes no line
  | loop condition body line => exact ih.loop_succ condition body line

theorem execAll_succ (ss : List Stmt) :
    Run.CutAt d (fun m => Phase.Deep d ⟨n + 1, .execAll ss, m⟩) (Lox.execAll (n + 1) ss) := by
  cases ss with
  | nil => exact (Run.CutAt.pure _).alone (by rintro _ _ _ (hk | _); cases hk)
  | cons s ss =>
    refine ((ih.exec s).bind
      (q := fun c m => c = .normal ∧ Phase.Deep d ⟨n, .execAll ss, m⟩) fun c => ?_).congr
      fun m hm => ⟨?_, fun h => ?_⟩
    · cases c with
      | normal => exact (ih.execAll ss).holding rfl
      | returned v => exact (Run.CutAt.pure _).barred nofun
    · rintro (h | ⟨_, m₁, hs, rfl, h⟩)
      · exact h.of_part (.first rfl)
      · exact h.of_part (.rest hs)
    · obtain ⟨j, c, hpart, h⟩ := h.part hm
      cases hpart with
      | first hk => cases hk; exact .inl h
      | rest hs => exact .inr ⟨_, _, hs, rfl, h⟩

end RunsCut

theorem runsCut (d n : Nat) : RunsCut d n := by
  induction n with
  | zero =>
    have hcut {α : Type} (k : Code) :
        Run.CutAt d (fun m => Phase.Deep d ⟨0, k, m⟩) (cutOff : Run α) :=
      Run.CutAt.cutOff.alone fun _ _ _ => nofun
    exact ⟨fun _ => hcut _, fun _ => hcut _, fun _ _ _ => hcut _, fun _ => hcut _, fun _ => hcut _⟩
  | succ n ih => exact ⟨ih.eval_succ, ih.evalAll_succ, ih.call_succ, ih.exec_succ, ih.execAll_succ⟩

theorem interpret_cut (d n : Nat) (program : List Stmt) :
    Run.CutAt d (fun m => Phase.Deep d ⟨n, .execAll program, m⟩) (interpret n program) :=
  ((runsCut d n).execAll program).followed fun _ => .pure ()

-- ---------------------------------------------------------------------------
-- Programs
-- ---------------------------------------------------------------------------

/-- Natives are called at any depth. -/
theorem call_native_limitedTo (d n : Nat) (f : Native) (vs : List Value) (line : Nat)
    (m : Machine) :
    call n (.native f) vs line (m.limitedTo d) =
      (call n (.native f) vs line m).map fun o => (o.1, o.2.limitedTo d) := by
  cases n with
  | zero => rfl
  | succ n =>
    rw [call, Run.checkCount]
    split
    · exact Run.callBuiltin_limitedTo d f vs line m
    · rfl

/-- A session has its limit from its first program to its last. -/
theorem Machine.Session.limit {m₀ m : Machine} (h : m₀.Session m) :
    m.callDepth = m₀.callDepth ∧ m.callLimit = m₀.callLimit := by
  induction h with
  | start => exact ⟨rfl, rfl⟩
  | run _ hrun ih =>
    have hkept := interpret_kept hrun
    exact ⟨hkept.callDepth.trans ih.1, hkept.callLimit.trans ih.2⟩
  | flush _ ih => exact ih

theorem limit_only_cuts {m : Machine} {d d' : Nat} (hm : m.callDepth = 0) (hd : d ≤ d') :
    (∀ n program r m₁, interpret n program (m.limitedTo d) = some (r, m₁) →
      (∀ line, r ≠ .error ⟨.recursionLimit d, line⟩) →
      interpret n program (m.limitedTo d') = some (r, m₁.limitedTo d')) ∧
    (∀ n program r m₁, interpret n program (m.limitedTo d') = some (r, m₁) →
      ∃ k, Phase.Nesting ⟨n, .execAll program, m.limitedTo d'⟩ k ∧
        (d < k → ∃ line m₂ text, interpret n program (m.limitedTo d) =
          some (.error ⟨.recursionLimit d, some line⟩, m₂) ∧ m₁.output = m₂.output ++ text) ∧
        (k ≤ d → interpret n program (m.limitedTo d) = some (r, m₁.limitedTo d))) ∧
    (∀ n f vs line m₁, call n (.native f) vs line (m₁.limitedTo d) =
      (call n (.native f) vs line m₁).map fun o => (o.1, o.2.limitedTo d)) ∧
    (∀ n f vs line m₁ r m₂, call n f vs line m₁ = some (r, m₂) → m₂.callDepth = m₁.callDepth) ∧
    ∀ m₁, (m.limitedTo d).Session m₁ → m₁.callDepth = 0 ∧ m₁.callLimit = d := by
  have hm' : (m.limitedTo d').callDepth ≤ d := by
    show m.callDepth ≤ d
    omega
  refine ⟨fun n program r m₁ h hr => ?_, fun n program r m₁ h => ?_, call_native_limitedTo d,
    fun n f vs line m₁ r m₂ h => (call_kept h).callDepth, fun m₁ h => ?_⟩
  · by_cases hdeep : Phase.Deep d ⟨n, .execAll program, m.limitedTo d'⟩
    · obtain ⟨line, m₂, hstop, -⟩ := (interpret_cut d n program).stops hm' hd hdeep
      cases h.symm.trans hstop
      exact absurd rfl (hr _)
    · have hsame := (interpret_cut d n program).same hm' hd hdeep
      rw [show (m.limitedTo d').limitedTo d = m.limitedTo d from rfl, h, eq_comm,
        Option.map_eq_some_iff] at hsame
      obtain ⟨⟨r', m₂⟩, hrun, heq⟩ := hsame
      cases heq
      have hlimit : m₂.callLimit = d' := ((interpret_cut d n program).restored hrun).callLimit
      rw [hrun, ← hlimit]
      rfl
  · obtain ⟨k, hk⟩ := Phase.exists_nesting ⟨n, .execAll program, m.limitedTo d'⟩
    have hdeep : Phase.Deep d ⟨n, .execAll program, m.limitedTo d'⟩ ↔ d < k := by
      rw [hk.deep_iff, show (m.limitedTo d').callDepth = 0 from hm, Nat.zero_add]
    refine ⟨k, hk, fun hlt => ?_, fun hle => ?_⟩
    · obtain ⟨line, m₂, hstop, hprinted⟩ :=
        (interpret_cut d n program).stops hm' hd (hdeep.2 hlt)
      obtain ⟨text, htext⟩ := hprinted r m₁ h
      exact ⟨line, m₂, text, hstop, htext⟩
    · have hsame := (interpret_cut d n program).same hm' hd fun h => Nat.not_lt.2 hle (hdeep.1 h)
      rw [h] at hsame
      exact hsame
  · exact h.limit.imp_left fun h => h.trans hm

/-- The program `fun f(p) { return p(nil); } f(f);`. -/
def nestedCalls : List Stmt :=
  let body := [.ret (.call (.var "p" 1) [.literal .nil 1] 1) 1]
  [.func ⟨"f", 1⟩ [⟨"p", 1⟩] body 1, .expr (.call (.var "f" 2) [.var "f" 2] 2) 2]

/-- A call of `f` in a call of `f` fails as it would with a higher limit if there may be two calls,
and is cut if there may be one. -/
theorem nested_call_is_cut :
    let m : Machine := .start 9 [] 0
    ∃ m₁ m₂ k, interpret 20 nestedCalls (m.limitedTo 1) =
        some (.error ⟨.recursionLimit 1, some 1⟩, m₁) ∧
      interpret 20 nestedCalls (m.limitedTo 2) =
        some (.error ⟨.notCallable "nil", some 1⟩, m₂) ∧
      Phase.Nesting ⟨20, .execAll nestedCalls, m.limitedTo 2⟩ k ∧ 1 < k ∧
        interpret 20 nestedCalls (m.limitedTo 3) =
          some (.error ⟨.notCallable "nil", some 1⟩, m₂.limitedTo 3) := by
  have hlow := limit_only_cuts (m := .start 9 [] 0) rfl (show 1 ≤ 2 by decide)
  have hhigh := limit_only_cuts (m := .start 9 [] 0) rfl (show 2 ≤ 3 by decide)
  obtain ⟨k, hk, -, hsame⟩ := hlow.2.1 20 nestedCalls _ _ rfl
  have hmore := hhigh.1 20 nestedCalls _ _ rfl nofun
  refine ⟨_, _, k, rfl, rfl, hk, Nat.lt_of_not_le fun hle => ?_, hmore⟩
  cases hsame hle

end Lox
