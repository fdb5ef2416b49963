-- SUMMARY: What every run keeps of its machine: open scopes, open calls and what was printed.
import Lox.Proofs.Run.Discipline

/-!
## What runs keep

However a run ends, the machine is at the place that it was at: the same scopes are open and the
same calls, and the output is the earlier one with more behind it. Scopes stay where they are, under
the same parents. They keep their names, and the only one to get new ones is the current scope.
-/

namespace Lox

/-- A scope and what became of it, where it got no names but the given ones. -/
structure Scope.Kept (names : List String) (s s' : Scope) : Prop where
  parent? : s'.parent? = s.parent?
  binds : ∀ x, s.binds x = true → s'.binds x = true
  names : ∀ x, s'.binds x = true → s.binds x = true ∨ x ∈ names

namespace Scope.Kept

variable {xs ys : List String} {s s' s'' : Scope}

theorem refl (xs : List String) (s : Scope) : Kept xs s s :=
  ⟨rfl, fun _ => id, fun _ => .inl⟩

theorem trans (h : Kept xs s s') (h' : Kept xs s' s'') : Kept xs s s'' where
  parent? := h'.parent?.trans h.parent?
  binds x := h'.binds x ∘ h.binds x
  names x hx := (h'.names x hx).elim (h.names x) .inr

theorem mono (h : Kept xs s s') (hxs : xs ⊆ ys) : Kept ys s s' :=
  { h with names := fun x hx => (h.names x hx).imp_right (hxs ·) }

theorem define (s : Scope) (name : String) (v : Value) : Kept [name] s (s.define name v) where
  parent? := rfl
  binds _ hx := Scope.binds_define.2 (.inr hx)
  names _ hx := (Scope.binds_define.1 hx).elim (fun h => .inr (by simp [h])) .inl

/-- A name that is bound is not new. -/
theorem assign {name : String} (h : s.binds name = true) (v : Value) :
    Kept [] s (s.define name v) where
  parent? := rfl
  binds _ hx := Scope.binds_define.2 (.inr hx)
  names _ hx := (Scope.binds_define.1 hx).elim (fun hname => .inl (hname ▸ h)) .inl

end Scope.Kept

/-- The scopes of a store are kept, and the one at `current` may get names. -/
def Store.Kept (current : ScopeId) (names : List String) (σ σ' : Store) : Prop :=
  ∀ i s, σ.scopes[i]? = some s →
    ∃ s', σ'.scopes[i]? = some s' ∧ Scope.Kept (if i = current then names else []) s s'

namespace Store.Kept

variable {xs ys : List String} {i current : ScopeId} {σ σ' σ'' : Store}

theorem refl (current : ScopeId) (xs : List String) (σ : Store) : Kept current xs σ σ :=
  fun _ s hs => ⟨s, hs, .refl _ s⟩

theorem trans (h : Kept current xs σ σ') (h' : Kept current xs σ' σ'') :
    Kept current xs σ σ'' := by
  intro i s hs
  obtain ⟨s', hs', hkept⟩ := h i s hs
  obtain ⟨s'', hs'', hkept'⟩ := h' i s' hs'
  exact ⟨s'', hs'', hkept.trans hkept'⟩

theorem mono (h : Kept current xs σ σ') (hxs : xs ⊆ ys) : Kept current ys σ σ' := by
  intro i s hs
  obtain ⟨s', hs', hkept⟩ := h i s hs
  refine ⟨s', hs', hkept.mono ?_⟩
  split
  · exact hxs
  · exact List.Subset.refl []

theorem size_le (h : Kept current xs σ σ') : σ.size ≤ σ'.size := by
  refine Nat.le_of_not_lt fun hlt => ?_
  obtain ⟨s', hs', -⟩ := h σ'.size _ (Array.getElem?_eq_getElem hlt)
  exact absurd (lt_size hs') (Nat.lt_irrefl _)

theorem define (σ : Store) (current : ScopeId) (name : String) (v : Value) :
    Kept current [name] σ (σ.define current name v) := by
  intro i s hs
  by_cases hi : i = current
  · subst hi
    refine ⟨s.define name v, by rw [getElem?_define, if_pos rfl, hs]; rfl, ?_⟩
    rw [if_pos rfl]
    exact .define s name v
  · exact ⟨s, by rw [getElem?_define_of_ne (Ne.symm hi), hs], .refl _ s⟩

theorem assign {name : String} {j : ScopeId} (h : (σ.get? j name).isSome) (v : Value)
    (current : ScopeId) : Kept current [] σ (σ.define j name v) := by
  intro i s hs
  by_cases hi : i = j
  · subst hi
    have hbinds : s.binds name = true := by simpa [get?, hs, Scope.binds] using h
    refine ⟨s.define name v, by rw [getElem?_define, if_pos rfl, hs]; rfl, ?_⟩
    exact (Scope.Kept.assign hbinds v).mono (List.nil_subset _)
  · exact ⟨s, by rw [getElem?_define_of_ne (Ne.symm hi), hs], .refl _ s⟩

end Store.Kept

/-- What a run keeps of a machine if it declares no other names than the given ones in the current
scope. -/
structure Machine.Kept (names : List String) (m m' : Machine) : Prop where
  env : m'.env = m.env
  callDepth : m'.callDepth = m.callDepth
  callLimit : m'.callLimit = m.callLimit
  builtins : m'.builtins = m.builtins
  output : ∃ text, m'.output = m.output ++ text
  scopes : Store.Kept m.env.current names m.store m'.store

namespace Machine.Kept

variable {xs ys : List String} {m m₁ m' : Machine} {bs : List (String × Value)}

theorem refl (xs : List String) (m : Machine) : Kept xs m m :=
  ⟨rfl, rfl, rfl, rfl, ⟨"", (String.append_empty).symm⟩, .refl _ xs m.store⟩

theorem trans (h : Kept xs m m₁) (h' : Kept xs m₁ m') : Kept xs m m' where
  env := h'.env.trans h.env
  callDepth := h'.callDepth.trans h.callDepth
  callLimit := h'.callLimit.trans h.callLimit
  builtins := h'.builtins.trans h.builtins
  output := by
    obtain ⟨t, ht⟩ := h.output
    obtain ⟨u, hu⟩ := h'.output
    exact ⟨t ++ u, by rw [hu, ht, String.append_assoc]⟩
  scopes := h.scopes.trans (h.env ▸ h'.scopes)

theorem mono (hxs : xs ⊆ ys) (h : Kept xs m m') : Kept ys m m' :=
  { h with scopes := h.scopes.mono hxs }

theorem print (m : Machine) (text : String) :
    Kept [] m { m with output := m.output ++ text ++ "\n" } :=
  { refl [] m with output := ⟨text ++ "\n", String.append_assoc⟩ }

theorem tick (m : Machine) : Kept [] m m.tick :=
  { refl [] m with }

theorem assign {name : String} {i : ScopeId} (h : m.store.holder? name m.env.current = some i)
    (v : Value) : Kept [] m { m with store := m.store.define i name v } :=
  { refl [] m with scopes := .assign (Store.holderWithin_binds h) v m.env.current }

theorem define (m : Machine) (name : String) (v : Value) : Kept [name] m (m.define name v) :=
  { refl [name] m with scopes := .define m.store m.env.current name v }

theorem declare (m : Machine) (name : String) (parameters : List String) (body : List Stmt) :
    Kept [name] m (m.declare name parameters body) :=
  { refl [name] m with scopes := .define m.store m.env.current name _ }

/-- The scope that was open meanwhile is none of those that there were before. -/
theorem leave (h : Kept xs (m.enter bs) m₁) : Kept [] m m₁.leave where
  env := by rw [Machine.leave, h.env, Machine.env_enter, Environment.pop_push]
  callDepth := h.callDepth
  callLimit := h.callLimit
  builtins := h.builtins
  output := h.output
  scopes := by
    intro i s hs
    have hi : i < m.store.size := Store.lt_size hs
    obtain ⟨s', hs', hkept⟩ := h.scopes i s (by rw [getElem?_enter hi, hs])
    rw [current_enter, if_neg (Nat.ne_of_lt hi)] at hkept
    exact ⟨s', hs', hkept.mono (List.nil_subset _)⟩

theorem back {i : ScopeId} (h : Kept [] (m.calling i) m₁) : Kept [] m (m₁.returningTo m) where
  env := rfl
  callDepth := rfl
  callLimit := h.callLimit
  builtins := h.builtins
  output := h.output
  scopes := by
    intro j s hs
    obtain ⟨s', hs', hkept⟩ := h.scopes j s hs
    rw [ite_self] at hkept
    exact ⟨s', hs', hkept.mono (List.nil_subset _)⟩

end Machine.Kept

/-- Nothing is asked of code, and the machine is kept. -/
def Discipline.kept : Discipline where
  Permitted _ := True
  Inv _ := True
  Val _ := True
  Rel := Machine.Kept
  inv _ := trivial
  refl xs {m} _ := .refl xs m
  trans := .trans
  mono := .mono
  plain _ := trivial
  body _ _ _ := trivial
  lookup _ _ := trivial
  builtin _ _ _ _ := trivial
  tick {m} _ := .tick m
  print {m} text _ := .print m text
  assign _ _ _ h := .assign h _
  define {m} name _ _ _ := .define m name _
  declare {m} name _ _ _ _ := .declare m name _ _
  enter _ _ := trivial
  leave _ h := h.leave
  call _ _ := trivial
  back _ h := h.back

section

variable {n : Nat} {m m' : Machine}

theorem eval_kept {e : Expr} {r : Except RuntimeError Value} (h : eval n e m = some (r, m')) :
    Machine.Kept [] m m' :=
  ((Discipline.kept.runs n).eval e (fun _ _ => trivial) m r m' trivial h).1

theorem evalAll_kept {es : List Expr} {r : Except RuntimeError (List Value)}
    (h : evalAll n es m = some (r, m')) : Machine.Kept [] m m' :=
  ((Discipline.kept.runs n).evalAll es (fun _ _ => trivial) m r m' trivial h).1

theorem call_kept {f : Value} {vs : List Value} {line : Nat} {r : Except RuntimeError Value}
    (h : call n f vs line m = some (r, m')) : Machine.Kept [] m m' :=
  ((Discipline.kept.runs n).call f vs line trivial (fun _ _ => trivial) m r m' trivial h).1

theorem exec_kept {s : Stmt} {r : Except RuntimeError Completion}
    (h : exec n s m = some (r, m')) : Machine.Kept s.declared m m' :=
  ((Discipline.kept.runs n).exec s (fun _ _ => trivial) m r m' trivial h).1

theorem execAll_kept {ss : List Stmt} {r : Except RuntimeError Completion}
    (h : execAll n ss m = some (r, m')) : Machine.Kept (Stmt.declaredAll ss) m m' :=
  ((Discipline.kept.runs n).execAll ss (fun _ _ => trivial) m r m' trivial h).1

end

end Lox
