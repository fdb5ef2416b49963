-- SUMMARY: Which names the scopes of a machine have after a run, and which of them have new values.
import Lox.Proofs.Run.Kept

/-!
## Frames

An expression adds no name to a scope that was there before it, whatever functions it calls. A
statement adds names to the current scope only, and only those that it declares outside its blocks
and function bodies. A name gets a new value only where it is declared, or if some code assigns to
it: the code that is run, or the body of a function that this code may come by
(`scopes_framed`).
-/

namespace Lox

/-- The names that calls of a value may assign to. -/
def Value.assigned : Value → List String
  | function f => Stmt.assignedAll f.body
  | _ => []

/-- The function makes functions that assign to the name, out of arguments that do not. -/
def Builtin.Brings (b : Builtin) (x : String) : Prop :=
  ∃ vs moment v, b.run vs moment = .ok v ∧ x ∈ v.assigned ∧ ∀ w ∈ vs, x ∉ w.assigned

/-- Some function that a run on the machine may call assigns to the name. -/
def Machine.Assigns (m : Machine) (x : String) : Prop :=
  (∃ i y v, m.store.get? i y = some v ∧ x ∈ v.assigned) ∨ ∃ b ∈ m.builtins, b.Brings x

theorem Machine.not_assigns_iff {m : Machine} {x : String} :
    ¬ m.Assigns x ↔ (∀ i y v, m.store.get? i y = some v → x ∉ v.assigned) ∧
      ∀ b ∈ m.builtins, ¬ b.Brings x := by
  constructor
  · exact fun h => ⟨fun i y v hv hx => h (.inl ⟨i, y, v, hv, hx⟩),
      fun b hb hx => h (.inr ⟨b, hb, hx⟩)⟩
  · rintro ⟨hstore, hbuiltins⟩ (⟨i, y, v, hv, hx⟩ | ⟨b, hb, hx⟩)
    · exact hstore i y v hv hx
    · exact hbuiltins b hb hx

-- ---------------------------------------------------------------------------
-- Runs that spare a name
-- ---------------------------------------------------------------------------

/-- The machine is kept, and the name has the values that it had. Where the name is declared, which
can only be in the current scope, nothing is said. -/
structure Machine.Spared (x : String) (names : List String) (m m' : Machine) : Prop where
  quiet : ¬ m'.Assigns x
  kept : Machine.Kept names m m'
  same : ∀ i, i < m.store.size → (i = m.env.current → x ∉ names) →
    m'.store.get? i x = m.store.get? i x

namespace Machine.Spared

variable {x : String} {xs ys : List String} {m m₁ m' : Machine} {bs : List (String × Value)}

theorem refl (xs : List String) (h : ¬ m.Assigns x) : Spared x xs m m :=
  ⟨h, .refl xs m, fun _ _ _ => rfl⟩

theorem trans (h : Spared x xs m m₁) (h' : Spared x xs m₁ m') : Spared x xs m m' where
  quiet := h'.quiet
  kept := h.kept.trans h'.kept
  same i hi hx := by
    have hi' : i < m₁.store.size := Nat.lt_of_lt_of_le hi h.kept.scopes.size_le
    rw [h'.same i hi' (h.kept.env ▸ hx), h.same i hi hx]

theorem mono (hxs : xs ⊆ ys) (h : Spared x xs m m') : Spared x ys m m' where
  quiet := h.quiet
  kept := h.kept.mono hxs
  same i hi hx := h.same i hi fun hcurrent hmem => hx hcurrent (hxs hmem)

/-- A definition of a value that does not assign to the name. -/
theorem quiet_define {i : ScopeId} {y : String} {v : Value} (hm : ¬ m.Assigns x)
    (hv : x ∉ v.assigned) :
    ¬ Machine.Assigns { m with store := m.store.define i y v } x := by
  rw [not_assigns_iff] at hm ⊢
  refine ⟨fun j z w hw => ?_, hm.2⟩
  rcases Store.eq_or_get?_of_define hw with rfl | hw
  · exact hv
  · exact hm.1 j z w hw

theorem assign {y : String} {v : Value} {i : ScopeId} (hm : ¬ m.Assigns x) (hy : y ≠ x)
    (hv : x ∉ v.assigned) (h : m.store.holder? y m.env.current = some i) :
    Spared x [] m { m with store := m.store.define i y v } where
  quiet := quiet_define hm hv
  kept := .assign h v
  same _ _ _ := Store.get?_define_of_ne (.inr hy.symm)

theorem define (y : String) {v : Value} (hm : ¬ m.Assigns x) (hv : x ∉ v.assigned) :
    Spared x [y] m (m.define y v) where
  quiet := quiet_define hm hv
  kept := .define m y v
  same i _ hx := by
    apply Store.get?_define_of_ne
    by_cases hi : i = m.env.current
    · exact .inr fun hy => hx hi (by simp [hy])
    · exact .inl (Ne.symm hi)

theorem declare (name : String) (parameters : List String) {body : List Stmt}
    (hm : ¬ m.Assigns x) (h : x ∉ Stmt.assignedAll body) :
    Spared x [name] m (m.declare name parameters body) :=
  have hdefine := define name
    (v := .function ⟨m.callables, name, parameters, body, m.env.current⟩) hm h
  ⟨hdefine.quiet, .declare m name parameters body, hdefine.same⟩

theorem quiet_enter (hm : ¬ m.Assigns x) (hbs : ∀ b ∈ bs, x ∉ b.2.assigned) :
    ¬ (m.enter bs).Assigns x := by
  rw [not_assigns_iff] at hm ⊢
  refine ⟨fun i y v hv => ?_, hm.2⟩
  rcases mem_or_get?_of_enter hv with ⟨b, hb, rfl⟩ | hv
  · exact hbs b hb
  · exact hm.1 i y v hv

theorem leave (h : Spared x xs (m.enter bs) m₁) : Spared x [] m m₁.leave where
  quiet := h.quiet
  kept := h.kept.leave
  same i hi _ := by
    have hlt : i < (m.enter bs).store.size := by
      rw [size_enter]
      exact Nat.lt_succ_of_lt hi
    have hsame := h.same i hlt fun hcurrent => absurd (hcurrent ▸ hi) (Nat.lt_irrefl _)
    rw [Store.get?, Store.get?, getElem?_enter hi] at hsame
    exact hsame

theorem back {i : ScopeId} (h : Spared x [] (m.calling i) m₁) :
    Spared x [] m (m₁.returningTo m) where
  quiet := h.quiet
  kept := h.kept.back
  same j hj _ := h.same j hj fun _ => List.not_mem_nil

end Machine.Spared

/-- Code that does not assign to `x` spares it. -/
def Discipline.sparing (x : String) : Discipline where
  Permitted e := e.target? ≠ some x
  Inv m := ¬ m.Assigns x
  Val v := x ∉ v.assigned
  Rel := Machine.Spared x
  inv h := h.quiet
  refl xs _ h := .refl xs h
  trans := .trans
  mono := .mono
  plain {v} h := by
    cases v with
    | function f => exact absurd rfl h
    | number | string | boolean | nil | native => exact List.not_mem_nil
  body := Stmt.not_mem_assignedAll_iff.1
  lookup {m name v} hm h := by
    obtain ⟨i, -, hv⟩ := Option.bind_eq_some_iff.1 h
    exact (Machine.not_assigns_iff.1 hm).1 i name v hv
  builtin {m b vs v} hm hb hvs hrun hx :=
    (Machine.not_assigns_iff.1 hm).2 b hb ⟨vs, m.moment, v, hrun, hx, hvs⟩
  tick hm := ⟨hm, .tick _, fun _ _ _ => rfl⟩
  print text hm := ⟨hm, .print _ text, fun _ _ _ => rfl⟩
  assign hm he hv h := .assign hm (fun hname => he (congrArg some hname)) hv h
  define name _ hm hv := .define name hm hv
  declare name parameters _ hm h :=
    .declare name parameters hm (Stmt.not_mem_assignedAll_iff.2 h)
  enter hm hbs := Machine.Spared.quiet_enter hm hbs
  leave _ h := h.leave
  call hm _ := hm
  back _ h := h.back

theorem eval_spares {n : Nat} {e : Expr} {m m' : Machine} {r : Except RuntimeError Value}
    {x : String} (h : eval n e m = some (r, m')) (he : x ∉ e.assigned) (hm : ¬ m.Assigns x) :
    Machine.Spared x [] m m' :=
  (((Discipline.sparing x).runs n).eval e (Expr.not_mem_assigned_iff.1 he) m r m' hm h).1

theorem exec_spares {n : Nat} {s : Stmt} {m m' : Machine} {r : Except RuntimeError Completion}
    {x : String} (h : exec n s m = some (r, m')) (hs : x ∉ s.assigned) (hm : ¬ m.Assigns x) :
    Machine.Spared x s.declared m m' :=
  (((Discipline.sparing x).runs n).exec s (Stmt.not_mem_assigned_iff.1 hs) m r m' hm h).1

-- ---------------------------------------------------------------------------
-- Frames
-- ---------------------------------------------------------------------------

/-- A scope and what became of it: its parent is the same, it lost no name, and it got none that is
not declared. The names with new values are declared or assigned to. -/
structure Scope.Framed (Declared Assigned : String → Prop) (s s' : Scope) : Prop where
  parent? : s'.parent? = s.parent?
  binds : ∀ x, s.binds x = true → s'.binds x = true
  names : ∀ x, s'.binds x = true → s.binds x = true ∨ Declared x
  values : ∀ x, s'.get? x ≠ s.get? x → Declared x ∨ Assigned x

/-- Every scope of the first store is framed by the one with its number in the second. -/
def Store.Framed (Declared : ScopeId → String → Prop) (Assigned : String → Prop)
    (σ σ' : Store) : Prop :=
  ∀ i s, σ.scopes[i]? = some s →
    ∃ s', σ'.scopes[i]? = some s' ∧ Scope.Framed (Declared i) Assigned s s'

/-- What is kept and, name by name, spared is framed. -/
theorem Machine.Kept.framed {names : List String} {m m' : Machine} {Assigned : String → Prop}
    (h : Machine.Kept names m m')
    (hspared : ∀ x, ¬ Assigned x → Machine.Spared x names m m') :
    Store.Framed (fun i x => i = m.env.current ∧ x ∈ names) Assigned m.store m'.store := by
  intro i s hs
  obtain ⟨s', hs', hkept⟩ := h.scopes i s hs
  refine ⟨s', hs', hkept.parent?, hkept.binds, fun x hx => ?_, fun x hx => ?_⟩
  · refine (hkept.names x hx).imp_right fun hmem => ?_
    by_cases hi : i = m.env.current
    · rw [if_pos hi] at hmem
      exact ⟨hi, hmem⟩
    · rw [if_neg hi] at hmem
      exact absurd hmem List.not_mem_nil
  · refine Classical.byContradiction fun hnot => hx ?_
    obtain ⟨hdeclared, hassigned⟩ := not_or.1 hnot
    have hsame := (hspared x hassigned).same i (Store.lt_size hs) fun hi hmem =>
      hdeclared ⟨hi, hmem⟩
    simpa only [Store.get?, hs, hs', Option.bind_some] using hsame

theorem scopes_framed (n : Nat) (m m' : Machine) :
    (∀ e r, eval n e m = some (r, m') →
      Store.Framed (fun _ _ => False) (fun x => x ∈ e.assigned ∨ m.Assigns x) m.store m'.store) ∧
      ∀ s r, exec n s m = some (r, m') →
        Store.Framed (fun i x => i = m.env.current ∧ x ∈ s.declared)
          (fun x => x ∈ s.assigned ∨ m.Assigns x) m.store m'.store := by
  constructor
  · intro e r h
    have hframed : Store.Framed (fun i x => i = m.env.current ∧ x ∈ [])
        (fun x => x ∈ e.assigned ∨ m.Assigns x) m.store m'.store :=
      (eval_kept h).framed fun x hx => eval_spares h (not_or.1 hx).1 (not_or.1 hx).2
    simpa only [List.not_mem_nil, and_false] using hframed
  · intro s r h
    exact (exec_kept h).framed fun x hx => exec_spares h (not_or.1 hx).1 (not_or.1 hx).2

/-- `fun f(p) { var b; a = p; return b(); }` is declared, and a call of it fails: the scope in which
`a` and `f` are declared gets no `p` and no `b`. -/
theorem failing_call_is_framed :
    let body : List Stmt := [.var ⟨"b", 1⟩ (.literal .nil 1) 1,
      .expr (.assign "a" (.var "p" 1) 1) 1, .ret (.call (.var "b" 1) [] 1) 1]
    let f : Stmt := .func ⟨"f", 1⟩ [⟨"p", 1⟩] body 1
    let call : Expr := .call (.var "f" 2) [.literal (.boolean true) 2] 2
    let m : Machine := (Machine.start 1 [] 0).define "a" .nil
    ∃ m₁ m₂, exec 9 f m = some (.ok .normal, m₁) ∧
      eval 9 call m₁ = some (.error ⟨.notCallable "nil", some 1⟩, m₂) ∧
        Store.Framed (fun i x => i = m.env.current ∧ x ∈ f.declared)
          (fun x => x ∈ f.assigned ∨ m.Assigns x) m.store m₁.store ∧
          Store.Framed (fun _ _ => False) (fun x => x ∈ call.assigned ∨ m₁.Assigns x)
            m₁.store m₂.store := by
  intro body f call m
  refine ⟨?m₁, ?m₂, ?declared, ?called, (scopes_framed 9 m _).2 f _ ?declared,
    (scopes_framed 9 _ _).1 call _ ?called⟩
  case declared => rfl
  case called => rfl

end Lox
