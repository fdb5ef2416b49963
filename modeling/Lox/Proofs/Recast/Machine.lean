-- SUMMARY: Operators, stores and machines do not look into the bodies of functions.
import Lox.Proofs.Store.Operations
import Lox.Proofs.Value.Plain
import Lox.Run.Eval

/-!
## Recast machines

A recast rewrites the bodies of functions, wherever in a machine they are. No operation on a machine
opens a body, so every operation may as well be done on the recast machine, behind any output.
-/

namespace Lox

/-- A way to rewrite the bodies of functions and the lines of errors. -/
structure Recast where
  body : List Stmt → List Stmt
  line : Nat → Nat

namespace Recast

variable (R : Recast) {i : ScopeId} {x name earlier : String} {bs : List (String × Value)}

def function (f : Function) : Function :=
  { f with body := R.body f.body }

def value : Value → Value
  | .function f => .function (R.function f)
  | v => v

def completion : Completion → Completion
  | .normal => .normal
  | .returned v => .returned (R.value v)

def error (e : RuntimeError) : RuntimeError :=
  { e with line := e.line.map R.line }

def bindings (bs : List (String × Value)) : List (String × Value) :=
  bs.map fun (name, v) => (name, R.value v)

def scope (s : Scope) : Scope :=
  { s with bindings := R.bindings s.bindings }

def store (σ : Store) : Store where
  scopes := σ.scopes.map R.scope

/-- A recast machine, behind an earlier output. -/
def machine (earlier : String) (m : Machine) : Machine :=
  { m with store := R.store m.store, output := earlier ++ m.output }

-- ---------------------------------------------------------------------------
-- Values
-- ---------------------------------------------------------------------------

@[simp] theorem isTrue_value (v : Value) : (R.value v).isTrue = v.isTrue := by
  cases v <;> rfl

@[simp] theorem isNil_value (v : Value) : (R.value v).isNil = v.isNil := by
  cases v <;> rfl

@[simp] theorem text_value (v : Value) : (R.value v).text = v.text := by
  cases v <;> rfl

theorem value_of_plain {v : Value} (h : v.Plain) : R.value v = v := by
  cases v with
  | function f => exact absurd rfl h
  | number | string | boolean | nil | native => rfl

theorem value_ofLiteral (l : Literal) : R.value (.ofLiteral l) = .ofLiteral l :=
  R.value_of_plain (Value.plain_ofLiteral l)

theorem value_completion (c : Completion) : (R.completion c).value = R.value c.value := by
  cases c <;> rfl

theorem binary_apply (op : BinaryOp) (v w : Value) :
    op.apply (R.value v) (R.value w) = op.apply v w := by
  cases v <;> cases w <;> cases op <;> rfl

theorem unary_apply (op : UnaryOp) (v : Value) : op.apply (R.value v) = op.apply v := by
  cases v <;> cases op <;> rfl

-- ---------------------------------------------------------------------------
-- Scopes
-- ---------------------------------------------------------------------------

theorem lookup_bindings (bs : List (String × Value)) (x : String) :
    (R.bindings bs).lookup x = (bs.lookup x).map R.value := by
  induction bs with
  | nil => rfl
  | cons b bs ih =>
    obtain ⟨n, v⟩ := b
    simp only [bindings, List.map_cons, List.lookup_cons] at ih ⊢
    split
    · rfl
    · exact ih

theorem bindings_setBinding (x : String) (v : Value) (bs : List (String × Value)) :
    R.bindings (setBinding x v bs) = setBinding x (R.value v) (R.bindings bs) := by
  induction bs with
  | nil => rfl
  | cons b bs ih =>
    simp only [bindings, setBinding, List.map_cons] at ih ⊢
    split
    · rfl
    · rw [List.map_cons, ih]

@[simp] theorem parent?_scope (s : Scope) : (R.scope s).parent? = s.parent? := rfl

theorem get?_scope (s : Scope) (x : String) : (R.scope s).get? x = (s.get? x).map R.value :=
  R.lookup_bindings s.bindings x

theorem binds_scope (s : Scope) (x : String) : (R.scope s).binds x = s.binds x := by
  rw [Scope.binds, get?_scope, Option.isSome_map]
  rfl

theorem scope_define (s : Scope) (x : String) (v : Value) :
    R.scope (s.define x v) = (R.scope s).define x (R.value v) := by
  unfold Scope.define scope
  exact congrArg (Scope.mk · s.parent?) (R.bindings_setBinding x v s.bindings)

-- ---------------------------------------------------------------------------
-- Stores
-- ---------------------------------------------------------------------------

variable {σ : Store}

theorem getElem?_store : (R.store σ).scopes[i]? = σ.scopes[i]?.map R.scope :=
  Array.getElem?_map

theorem get?_store : (R.store σ).get? i x = (σ.get? i x).map R.value := by
  unfold Store.get?
  rw [getElem?_store]
  cases σ.scopes[i]? with
  | none => rfl
  | some s => exact R.get?_scope s x

theorem holderWithin_store {n : Nat} : (R.store σ).holderWithin x n i = σ.holderWithin x n i := by
  induction n generalizing i with
  | zero => rfl
  | succ n ih =>
    rw [Store.holderWithin, Store.holderWithin, getElem?_store]
    cases σ.scopes[i]? with
    | none => rfl
    | some s => simp only [Option.map_some, binds_scope, parent?_scope, ih]

theorem holder?_store : (R.store σ).holder? x i = σ.holder? x i :=
  R.holderWithin_store

theorem lookup_store : (R.store σ).lookup i x = (σ.lookup i x).map R.value := by
  unfold Store.lookup
  rw [holder?_store]
  cases σ.holder? x i with
  | none => rfl
  | some j => exact R.get?_store

theorem store_define {v : Value} :
    R.store (σ.define i x v) = (R.store σ).define i x (R.value v) := by
  refine congrArg Store.mk (Array.ext_getElem? fun j => ?_)
  simp only [Store.define, store, Array.getElem?_map, Array.getElem?_modify]
  split
  · cases σ.scopes[j]? with
    | none => rfl
    | some s => exact congrArg some (R.scope_define s x v)
  · rfl

theorem store_defineAll : R.store (σ.defineAll i bs) = (R.store σ).defineAll i (R.bindings bs) := by
  induction bs generalizing σ with
  | nil => rfl
  | cons b bs ih => rw [Store.defineAll_cons, ih, store_define]; rfl

theorem store_allocate (parent? : Option ScopeId) :
    R.store (σ.allocate parent?).2 = ((R.store σ).allocate parent?).2 :=
  congrArg Store.mk Array.map_push

theorem size_store : (R.store σ).size = σ.size :=
  Array.size_map

-- ---------------------------------------------------------------------------
-- Machines
-- ---------------------------------------------------------------------------

variable {m : Machine} {v : Value}

theorem lookup_machine : (R.machine earlier m).lookup x = (m.lookup x).map R.value :=
  R.lookup_store

theorem machine_define :
    R.machine earlier (m.define x v) = (R.machine earlier m).define x (R.value v) := by
  rw [machine, Machine.define, store_define]
  rfl

theorem machine_declare (parameters : List String) (body : List Stmt) :
    R.machine earlier (m.declare name parameters body) =
      (R.machine earlier m).declare name parameters (R.body body) :=
  R.machine_define

theorem machine_enter :
    R.machine earlier (m.enter bs) = (R.machine earlier m).enter (R.bindings bs) := by
  have hsize : (R.machine earlier m).store.size = m.store.size := R.size_store
  have hstore : R.store (m.enter bs).store =
      ((R.machine earlier m).enter (R.bindings bs)).store := by
    rw [Machine.store_enter, Machine.store_enter, store_defineAll, store_allocate, hsize]
    rfl
  have henv : (m.enter bs).env = ((R.machine earlier m).enter (R.bindings bs)).env := by
    rw [Machine.env_enter, Machine.env_enter, hsize]
    rfl
  rw [machine, hstore, henv]
  rfl

/-- There are no functions yet in a machine before its first run. -/
theorem machine_fresh (callLimit : Nat) (readings : Readings) :
    R.machine "" (.fresh callLimit readings) = .fresh callLimit readings := by
  have hempty : R.store .empty = .empty := by simp [store, Store.empty]
  have hstore : R.store (Machine.fresh callLimit readings).store =
      (Machine.fresh callLimit readings).store := by
    show R.store ((Store.empty.allocate none).2.define 0 "clock" _) = _
    rw [store_define, store_allocate, hempty]
    rfl
  rw [machine, hstore, String.empty_append]

end Recast

end Lox
