-- SUMMARY: Values and scopes that are the same but for the numbers of scopes and functions.
import Lox.Proofs.Store.Operations
import Lox.Proofs.Value.Plain
import Lox.Run.Eval
import Mathlib.Data.List.Forall2

/-!
## Pairs

Scopes, functions and natives have numbers, which programs cannot see. A correspondence says which
number on the left stands for which on the right. Two values are a pair if they are the same but for
numbers that correspond, and so are two scopes that have the same names for pairs. An operator does
the same with both values of a pair.
-/

section

variable {α β : Type} {r r' : α → β → Prop} {a? : Option α} {b? : Option β}

theorem Option.Rel.imp (h : Option.Rel r a? b?) (hr : ∀ a b, r a b → r' a b) :
    Option.Rel r' a? b? := by
  cases h with
  | some h => exact .some (hr _ _ h)
  | none => exact .none

theorem Option.none_or_some_of_rel (h : Option.Rel r a? b?) :
    (a? = none ∧ b? = none) ∨ ∃ a b, a? = some a ∧ b? = some b ∧ r a b := by
  cases h with
  | some h => exact .inr ⟨_, _, rfl, rfl, h⟩
  | none => exact .inl ⟨rfl, rfl⟩

theorem Option.Rel.isSome_eq (h : Option.Rel r a? b?) : a?.isSome = b?.isSome := by
  cases h <;> rfl

end

namespace Lox

/-- Which number on the left stands for which on the right, in the same order on both sides. -/
structure Pairing where
  rel : Nat → Nat → Prop
  lt_iff : ∀ {i j i' j'}, rel i j → rel i' j' → (i < i' ↔ j < j')

structure Correspondence where
  scope : Pairing
  identity : Pairing

namespace Pairing

theorem eq_iff (ρ : Pairing) {i j i' j' : Nat} (h : ρ.rel i j) (h' : ρ.rel i' j') :
    i = i' ↔ j = j' := by
  have hlt := ρ.lt_iff h h'
  have hgt := ρ.lt_iff h' h
  omega

/-- The pairs whose left number is below `n`. -/
def below (ρ : Pairing) (n : Nat) : Pairing where
  rel i j := i < n ∧ ρ.rel i j
  lt_iff h h' := ρ.lt_iff h.2 h'.2

/-- Every number stands for itself. -/
def same : Pairing where
  rel := Eq
  lt_iff := by
    rintro i _ i' _ rfl rfl
    exact Iff.rfl

end Pairing

namespace Correspondence

/-- What is made of the first scopes and functions on the left. -/
def below (ρ : Correspondence) (scopes callables : Nat) : Correspondence where
  scope := ρ.scope.below scopes
  identity := ρ.identity.below callables

def same : Correspondence where
  scope := .same
  identity := .same

/-- What corresponds under `ρ` does so under `ρ'`. -/
structure Within (ρ ρ' : Correspondence) : Prop where
  scope : ∀ {i j}, ρ.scope.rel i j → ρ'.scope.rel i j
  identity : ∀ {a b}, ρ.identity.rel a b → ρ'.identity.rel a b

theorem Within.refl {ρ : Correspondence} : ρ.Within ρ where
  scope := id
  identity := id

theorem Within.trans {ρ ρ' ρ'' : Correspondence} (h : ρ.Within ρ') (h' : ρ'.Within ρ'') :
    ρ.Within ρ'' where
  scope := h'.scope ∘ h.scope
  identity := h'.identity ∘ h.identity

theorem below_within (ρ : Correspondence) {n n' c c' : Nat} (hn : n ≤ n') (hc : c ≤ c') :
    (ρ.below n c).Within (ρ.below n' c') where
  scope h := ⟨Nat.lt_of_lt_of_le h.1 hn, h.2⟩
  identity h := ⟨Nat.lt_of_lt_of_le h.1 hc, h.2⟩

end Correspondence

variable {ρ ρ' : Correspondence}

-- ---------------------------------------------------------------------------
-- Values
-- ---------------------------------------------------------------------------

/-- The same value but for numbers. -/
inductive Value.Pairs (ρ : Correspondence) : Value → Value → Prop where
  | number (x : Float) : Pairs ρ (.number x) (.number x)
  | string (s : String) : Pairs ρ (.string s) (.string s)
  | boolean (b : Bool) : Pairs ρ (.boolean b) (.boolean b)
  | nil : Pairs ρ .nil .nil
  | function {name parameters body a b i j} (hidentity : ρ.identity.rel a b)
      (hscope : ρ.scope.rel i j) :
      Pairs ρ (.function ⟨a, name, parameters, body, i⟩) (.function ⟨b, name, parameters, body, j⟩)
  | native {name arity a b} (hidentity : ρ.identity.rel a b) :
      Pairs ρ (.native ⟨a, name, arity⟩) (.native ⟨b, name, arity⟩)

/-- What a completion returns on the left, it returns on the right. -/
inductive Completion.Pairs (ρ : Correspondence) : Completion → Completion → Prop where
  | normal : Pairs ρ .normal .normal
  | returned {v w} (h : v.Pairs ρ w) : Pairs ρ (.returned v) (.returned w)

/-- Values given to names. -/
def PairsAll (ρ : Correspondence) (bs cs : List (String × Value)) : Prop :=
  List.Forall₂ (fun b c => b.1 = c.1 ∧ b.2.Pairs ρ c.2) bs cs

namespace Builtin

variable {b : Builtin}

/-- At the two moments the built-in function fails alike or has pairs for values, if its arguments
are pairs. So it cannot look into a scope, and has no functions of its own. -/
def Parallel (b : Builtin) (moment moment' : Nat) : Prop :=
  ∀ ρ vs ws, List.Forall₂ (Value.Pairs ρ) vs ws →
    (∃ fault, b.run vs moment = .error fault ∧ b.run ws moment' = .error fault) ∨
      ∃ v w, b.run vs moment = .ok v ∧ b.run ws moment' = .ok w ∧ v.Pairs ρ w

/-- What the built-in function replies depends on its arguments and on the moment only. -/
def Parametric (b : Builtin) : Prop :=
  ∀ moment, b.Parallel moment moment

/-- What the built-in function replies depends on its arguments only. -/
def Timeless (b : Builtin) : Prop :=
  ∀ moment moment', b.Parallel moment moment'

theorem Timeless.parametric (h : b.Timeless) : b.Parametric :=
  fun moment => h moment moment

theorem parametric_clockOf (readings : Readings) : (clockOf readings).Parametric := by
  intro moment ρ vs ws _
  rcases clockOf_replies readings moment with ⟨now, h⟩ | ⟨reason, h⟩
  · exact .inr ⟨_, _, h vs, h ws, .number now⟩
  · exact .inl ⟨_, h vs, h ws⟩

theorem timeless_clock (now : Float) : (clock now).Timeless :=
  fun _ _ _ _ _ _ => .inr ⟨_, _, rfl, rfl, .number now⟩

end Builtin

namespace Value.Pairs

variable {v v' w w' : Value}

theorem mono (h : v.Pairs ρ w) (hρ : ρ.Within ρ') : v.Pairs ρ' w := by
  cases h with
  | number | string | boolean | nil => constructor
  | function hidentity hscope => exact .function (hρ.identity hidentity) (hρ.scope hscope)
  | native hidentity => exact .native (hρ.identity hidentity)

theorem type_eq (h : v.Pairs ρ w) : v.type = w.type := by
  cases h <;> rfl

theorem text_eq (h : v.Pairs ρ w) : v.text = w.text := by
  cases h <;> rfl

theorem isTrue_eq (h : v.Pairs ρ w) : v.isTrue = w.isTrue := by
  cases h <;> rfl

theorem isNil_eq (h : v.Pairs ρ w) : v.isNil = w.isNil := by
  cases h <;> rfl

theorem literal (l : Literal) : (ofLiteral l).Pairs ρ (ofLiteral l) := by
  cases l <;> constructor

/-- Functions are equal on the left if they are on the right. -/
theorem equal_eq (hv : v.Pairs ρ v') (hw : w.Pairs ρ w') : v.equal w = v'.equal w' := by
  have identity_eq {a b a' b' : Nat} (h : ρ.identity.rel a b) (h' : ρ.identity.rel a' b') :
      (a == a') = (b == b') := by
    rw [Bool.eq_iff_iff, beq_iff_eq, beq_iff_eq]
    exact ρ.identity.eq_iff h h'
  cases hv with
  | function h =>
    cases hw with
    | function h' => exact identity_eq h h'
    | _ => rfl
  | native h =>
    cases hw with
    | native h' => exact identity_eq h h'
    | _ => rfl
  | _ => cases hw <;> rfl

end Value.Pairs

theorem Completion.Pairs.value {c d : Completion} (h : c.Pairs ρ d) : c.value.Pairs ρ d.value := by
  cases h with
  | normal => exact .nil
  | returned h => exact h

theorem PairsAll.mono {bs cs : List (String × Value)} (h : PairsAll ρ bs cs) (hρ : ρ.Within ρ') :
    PairsAll ρ' bs cs :=
  h.imp fun _ _ h => ⟨h.1, h.2.mono hρ⟩

theorem PairsAll.zip {vs ws : List Value} (h : List.Forall₂ (Value.Pairs ρ) vs ws)
    (names : List String) : PairsAll ρ (names.zip vs) (names.zip ws) := by
  induction h generalizing names with
  | nil =>
    cases names <;> exact .nil
  | cons hv _ ih =>
    cases names with
    | nil => exact .nil
    | cons name names => exact .cons ⟨rfl, hv⟩ (ih names)

-- ---------------------------------------------------------------------------
-- Operators
-- ---------------------------------------------------------------------------

theorem BinaryOp.apply_pairs {v v' w w' : Value} (op : BinaryOp) (hv : v.Pairs ρ v')
    (hw : w.Pairs ρ w') : op.apply v w = op.apply v' w' := by
  cases op with
  | equal => exact congrArg (Except.ok <| Value.boolean ·) (hv.equal_eq hw)
  | notEqual => exact congrArg (Except.ok <| Value.boolean !·) (hv.equal_eq hw)
  | _ => cases hv <;> cases hw <;> rfl

theorem UnaryOp.apply_pairs {v w : Value} (op : UnaryOp) (h : v.Pairs ρ w) :
    op.apply v = op.apply w := by
  cases h <;> cases op <;> rfl

/-- What is made of a count and a string is a string. -/
theorem Value.pairs_of_bind {count : Except Fault Nat} {text : Nat → Except Fault String}
    {u : Value} (h : (do return Value.string (← text (← count)) : Except Fault Value) = .ok u) :
    u.Pairs ρ u := by
  cases count with
  | error fault => cases h
  | ok n =>
    change (text n).bind (fun s => .ok (.string s)) = .ok u at h
    cases hs : text n with
    | error fault => rw [hs] at h; cases h
    | ok s => rw [hs] at h; cases h; exact .string s

/-- The value of an operator is neither a function nor a native. -/
theorem BinaryOp.pairs_of_apply {v w u : Value} (op : BinaryOp) (h : op.apply v w = .ok u) :
    u.Pairs ρ u := by
  cases op with
  | sub =>
    change v.subtract w = .ok u at h
    unfold Value.subtract at h
    split at h
    · cases h; constructor
    · exact Value.pairs_of_bind h
    · cases h
  | mul =>
    change v.multiply w = .ok u at h
    unfold Value.multiply at h
    split at h
    · cases h; constructor
    · exact Value.pairs_of_bind h
    · cases h
  | div =>
    change v.divide w = .ok u at h
    unfold Value.divide at h
    split at h
    · split at h
      · cases h
      · cases h; constructor
    · cases h
  | add => cases v <;> cases w <;> cases h <;> constructor
  | equal | notEqual => cases h; constructor
  | less | lessEqual | greater | greaterEqual =>
    cases v <;> cases w <;> cases h
    exact .boolean _

theorem UnaryOp.pairs_of_apply {v u : Value} (op : UnaryOp) (h : op.apply v = .ok u) :
    u.Pairs ρ u := by
  unfold apply at h
  split at h <;> cases h <;> constructor

-- ---------------------------------------------------------------------------
-- Scopes
-- ---------------------------------------------------------------------------

/-- Two scopes with the same names for pairs, whose parents are related. -/
structure Scope.Pairs (ρ : Correspondence) (r : ScopeId → ScopeId → Prop) (s t : Scope) : Prop where
  parent? : Option.Rel r s.parent? t.parent?
  values : ∀ x, Option.Rel (Value.Pairs ρ) (s.get? x) (t.get? x)

namespace Scope.Pairs

variable {r r' : ScopeId → ScopeId → Prop} {s t : Scope}

theorem mono (h : s.Pairs ρ r t) (hρ : ρ.Within ρ') (hr : ∀ i j, r i j → r' i j) :
    s.Pairs ρ' r' t where
  parent? := h.parent?.imp hr
  values x := (h.values x).imp fun _ _ hv => hv.mono hρ

theorem binds_eq (h : s.Pairs ρ r t) (x : String) : s.binds x = t.binds x :=
  (h.values x).isSome_eq

theorem define {v w : Value} (h : s.Pairs ρ r t) (x : String) (hv : v.Pairs ρ w) :
    (s.define x v).Pairs ρ r (t.define x w) where
  parent? := h.parent?
  values y := by
    rw [get?_define, get?_define]
    split
    · exact .some hv
    · exact h.values y

theorem opened {i j : ScopeId} (h : r i j) :
    Scope.Pairs ρ r { bindings := [], parent? := some i }
      { bindings := [], parent? := some j } where
  parent? := .some h
  values _ := .none

end Scope.Pairs

end Lox
