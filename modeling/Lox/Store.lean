-- SUMMARY: The store: scopes, their bindings and the links between them.
import Lox.Value.Basic

/-!
## The store

All scopes that a run has made, in the order in which it made them. A scope has bindings and may
have a parent, which was made before it. A name is looked up in the nearest scope that binds it,
from a scope on through its parents.
-/

namespace Lox

structure Scope where
  bindings : List (String × Value)
  parent? : Option ScopeId

/-- Replaces the value of a name, or adds the name at the end. -/
def setBinding (name : String) (v : Value) : List (String × Value) → List (String × Value)
  | [] => [(name, v)]
  | (n, w) :: rest => if n = name then (n, v) :: rest else (n, w) :: setBinding name v rest

namespace Scope

def get? (s : Scope) (name : String) : Option Value :=
  s.bindings.lookup name

def binds (s : Scope) (name : String) : Bool :=
  (s.get? name).isSome

def define (s : Scope) (name : String) (v : Value) : Scope :=
  { s with bindings := setBinding name v s.bindings }

theorem lookup_setBinding (name other : String) (v : Value) (bs : List (String × Value)) :
    (setBinding name v bs).lookup other = if other = name then some v else bs.lookup other := by
  induction bs with
  | nil =>
    by_cases h : other = name
    · simp [setBinding, h]
    · simp [setBinding, List.lookup_cons, h, beq_false_of_ne h]
  | cons b rest ih =>
    obtain ⟨n, w⟩ := b
    by_cases hn : n = name
    · subst hn
      by_cases h : other = n
      · simp [setBinding, h]
      · simp [setBinding, List.lookup_cons, h, beq_false_of_ne h]
    · by_cases h : other = n
      · subst h
        simp [setBinding, hn]
      · simp [setBinding, List.lookup_cons, hn, beq_false_of_ne h, ih]

/-- A name that is defined has the value given to it, and no other name changes. -/
theorem get?_define (s : Scope) (name other : String) (v : Value) :
    (s.define name v).get? other = if other = name then some v else s.get? other :=
  lookup_setBinding name other v s.bindings

end Scope

structure Store where
  scopes : Array Scope

namespace Store

def empty : Store where
  scopes := #[]

/-- Makes a scope. -/
def allocate (σ : Store) (parent? : Option ScopeId) : ScopeId × Store :=
  (σ.scopes.size, ⟨σ.scopes.push { bindings := [], parent? }⟩)

/-- The value that the scope itself has for a name. -/
def get? (σ : Store) (i : ScopeId) (name : String) : Option Value :=
  σ.scopes[i]?.bind fun s => s.get? name

/-- Gives a name a value in the scope itself. -/
def define (σ : Store) (i : ScopeId) (name : String) (v : Value) : Store :=
  ⟨σ.scopes.modify i fun s => s.define name v⟩

/-- The nearest of at most `n` scopes that binds the name, from `i` on through the parents. -/
def holderWithin (σ : Store) (name : String) : Nat → ScopeId → Option ScopeId
  | 0, _ => none
  | n + 1, i =>
    match σ.scopes[i]? with
    | none => none
    | some s =>
      if s.binds name then
        some i
      else
        match s.parent? with
        | none => none
        | some p => holderWithin σ name n p

/-- The nearest scope that binds the name. Parents are older, so `i` has at most `i` of them. -/
def holder? (σ : Store) (name : String) (i : ScopeId) : Option ScopeId :=
  σ.holderWithin name (i + 1) i

/-- The value of a name, seen from scope `i`. -/
def lookup (σ : Store) (i : ScopeId) (name : String) : Option Value :=
  (σ.holder? name i).bind fun j => σ.get? j name

/-- Gives a name that is bound a new value where it is bound. -/
def assign (σ : Store) (i : ScopeId) (name : String) (v : Value) : Option Store :=
  (σ.holder? name i).map fun j => σ.define j name v

theorem holderWithin_binds {σ : Store} {name : String} {n : Nat} {i j : ScopeId}
    (h : σ.holderWithin name n i = some j) : (σ.get? j name).isSome := by
  induction n generalizing i with
  | zero => cases h
  | succ n ih =>
    unfold holderWithin at h
    split at h
    · cases h
    · next s hs =>
      split at h
      · next hb =>
        cases h
        simpa [get?, hs, Scope.binds] using hb
      · split at h
        · cases h
        · exact ih h

/-- A name has a value exactly if it can be assigned to. -/
theorem isSome_assign (σ : Store) (i : ScopeId) (name : String) (v : Value) :
    (σ.assign i name v).isSome = (σ.lookup i name).isSome := by
  unfold assign lookup
  cases h : σ.holder? name i with
  | none => rfl
  | some j => simpa using (holderWithin_binds h).symm

end Store

end Lox
