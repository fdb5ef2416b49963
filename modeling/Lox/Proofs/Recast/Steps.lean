-- SUMMARY: The steps of a run do on a recast machine what they do on the machine itself.
import Lox.Proofs.Attempt
import Lox.Proofs.Recast.Machine

/-!
## Steps on recast machines

Every step of a run may as well be done on the recast machine, if the bodies that it is given are
recast too. Built-in functions have to play their part: what they make of values may not depend on
the bodies of functions.
-/

namespace Lox

open Attempt

namespace Recast

/-- A built-in function that does not look into the functions in its arguments. -/
def Suits (R : Recast) (b : Builtin) : Prop :=
  ∀ vs moment, b.run (vs.map R.value) moment = (b.run vs moment).map R.value

theorem suits_clockOf (R : Recast) (readings : Readings) : R.Suits (.clockOf readings) := by
  intro vs moment
  rcases Builtin.clockOf_replies readings moment with ⟨now, h⟩ | ⟨reason, h⟩
  · rw [h, h]
    rfl
  · rw [h, h]
    rfl

/-- Recast machines, behind an output. -/
def view (R : Recast) (earlier : String) : View RuntimeError Machine where
  Holds m := ∀ b ∈ m.builtins, R.Suits b
  state m := R.machine earlier m
  error e := R.error e

theorem frames_enter (R : Recast) (earlier : String) (bs : List (String × Value)) :
    (R.view earlier).Frames (fun m => m.enter bs) (fun m => m.enter (R.bindings bs))
      (fun _ m => m.leave) fun _ m => m.leave where
  enter _ hm := ⟨hm, R.machine_enter.symm⟩
  leave _ _ hm := ⟨hm, rfl⟩

theorem frames_calling (R : Recast) (earlier : String) (i : ScopeId) :
    (R.view earlier).Frames (fun m => m.calling i) (fun m => m.calling i)
      (fun m m₁ => m₁.returningTo m) fun m m₁ => m₁.returningTo m where
  enter _ hm := ⟨hm, rfl⟩
  leave _ _ hm := ⟨hm, rfl⟩

end Recast

/-- `y` does on the recast machine what `x` does. -/
def Run.Recasts {α β : Type} (R : Recast) (earlier : String) (see : α → β) (x : Run α)
    (y : Run β) : Prop :=
  (R.view earlier).Matches see x y

namespace Run.Recasts

variable {R : Recast} {α β γ δ : Type} {earlier : String} {line : Nat} {see : α → β}

theorem pure {a : α} {b : β} (h : b = see a) :
    Recasts R earlier see (Pure.pure a) (Pure.pure b) :=
  h ▸ View.Matches.pure a

theorem fail (fault : Fault) :
    Recasts R earlier see (Run.fail fault line) (Run.fail fault (R.line line)) :=
  View.Matches.fail _

theorem bind {see' : γ → δ} {x : Run α} {y : Run β} {f : α → Run γ} {g : β → Run δ}
    (hx : Recasts R earlier see x y) (hf : ∀ a, Recasts R earlier see' (f a) (g (see a))) :
    Recasts R earlier see' (x >>= f) (y >>= g) :=
  View.Matches.bind hx hf

theorem gets {f : Machine → α} {g : Machine → β}
    (h : ∀ m, g (R.machine earlier m) = see (f m)) :
    Recasts R earlier see (Attempt.gets f) (Attempt.gets g) :=
  View.Matches.gets fun m _ => h m

theorem located {x y : Except Fault Value} (h : y = x.map R.value) :
    Recasts R earlier R.value (Run.located line x) (Run.located (R.line line) y) := by
  subst h
  cases x with
  | ok v => exact .pure rfl
  | error fault => exact fail fault

/-- The result of an operator is no function, so it has no body. -/
theorem operator {x : Except Fault Value} (h : PlainResult x) :
    Recasts R earlier R.value (Run.located line x) (Run.located (R.line line) x) := by
  refine located ?_
  cases x with
  | ok v => exact congrArg Except.ok (R.value_of_plain h).symm
  | error fault => rfl

theorem modify {f g : Machine → Machine}
    (h : ∀ m, g (R.machine earlier m) = R.machine earlier (f m))
    (hf : ∀ m, (f m).builtins = m.builtins) :
    Recasts R earlier id (Attempt.modify f) (Attempt.modify g) := by
  intro m hm
  refine ⟨?_, ?_⟩
  · show some (Except.ok (), g (R.machine earlier m)) = _
    rw [h]
    rfl
  · rintro _ _ ⟨⟩ b hb
    exact hm b (hf m ▸ hb)

theorem print (text : String) : Recasts R earlier id (Run.print text) (Run.print text) := by
  refine modify (fun m => ?_) fun _ => rfl
  simp only [Recast.machine, String.append_assoc]

theorem define (name : String) (v : Value) :
    Recasts R earlier id (Run.define name v) (Run.define name (R.value v)) :=
  modify (fun _ => R.machine_define.symm) fun _ => rfl

theorem declare (name : String) (parameters : List String) (body : List Stmt) :
    Recasts R earlier id (Run.declare name parameters body)
      (Run.declare name parameters (R.body body)) :=
  modify (fun _ => (R.machine_declare parameters body).symm) fun _ => rfl

theorem lookup (name : String) :
    Recasts R earlier R.value (Run.lookup name line) (Run.lookup name (R.line line)) := by
  have hlookup : Recasts R earlier (Option.map R.value)
      (Attempt.gets fun m => m.lookup name) (Attempt.gets fun m => m.lookup name) :=
    .gets fun _ => R.lookup_machine
  refine hlookup.bind fun v? => ?_
  cases v? with
  | some v => exact .pure rfl
  | none => exact fail _

theorem assign (name : String) (v : Value) :
    Recasts R earlier id (Run.assign name v line)
      (Run.assign name (R.value v) (R.line line)) := by
  refine View.Matches.tryStep fun m hm => ?_
  have hholder : ((R.view earlier).state m).store.holder? name
      ((R.view earlier).state m).env.current = m.store.holder? name m.env.current :=
    R.holder?_store
  rw [hholder]
  cases m.store.holder? name m.env.current with
  | none => exact ⟨rfl, hm⟩
  | some i =>
    refine ⟨?_, hm⟩
    simp only [View.result, Recast.view, Recast.machine, Recast.store_define]

theorem inScope {x : Run α} {y : Run β} (bs : List (String × Value))
    (h : Recasts R earlier see x y) :
    Recasts R earlier see (Run.inScope bs x) (Run.inScope (R.bindings bs) y) := by
  rw [Run.inScope_eq_within, Run.inScope_eq_within]
  exact View.Matches.within (R.frames_enter earlier bs) h

theorem inFrame {x : Run α} {y : Run β} (i : ScopeId) (h : Recasts R earlier see x y) :
    Recasts R earlier see (Run.inFrame i x) (Run.inFrame i y) := by
  rw [Run.inFrame_eq_within, Run.inFrame_eq_within]
  exact View.Matches.within (R.frames_calling earlier i) h

theorem checkCount (name : String) (expected got : Nat) :
    Recasts R earlier id (Run.checkCount name expected got line)
      (Run.checkCount name expected got (R.line line)) := by
  unfold Run.checkCount
  split
  · exact .pure rfl
  · exact fail _

theorem checkDepth : Recasts R earlier id (Run.checkDepth line) (Run.checkDepth (R.line line)) := by
  have hgets : Recasts R earlier id (Attempt.gets fun m => (m.callDepth, m.callLimit))
      (Attempt.gets fun m => (m.callDepth, m.callLimit)) := .gets fun _ => rfl
  refine hgets.bind fun limits => ?_
  obtain ⟨depth, limit⟩ := limits
  by_cases h : limit ≤ depth
  · simp only [id_eq, h, if_true]
    exact fail _
  · simp only [id_eq, h, if_false]
    exact .pure rfl

theorem callBuiltin (f : Native) (vs : List Value) :
    Recasts R earlier R.value (Run.callBuiltin f vs line)
      (Run.callBuiltin f (vs.map R.value) (R.line line)) := by
  intro m hm
  have hbuiltins : ((R.view earlier).state m).builtins = m.builtins := rfl
  simp only [Run.callBuiltin_apply, hbuiltins]
  cases hb : m.builtins.find? fun b => b.name == f.name with
  | some b => exact located (hm b (List.mem_of_find?_eq_some hb) vs m.moment) m.tick hm
  | none => exact fail _ m hm

end Run.Recasts

end Lox
