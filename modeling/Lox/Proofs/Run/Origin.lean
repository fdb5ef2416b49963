-- SUMMARY: All code that a run comes to stands in the program that is run.
import Lox.Proofs.Run.Host
import Lox.Proofs.Run.Phase

/-!
## Origin of code

The phases of a run keep to the discipline that the run keeps to. So code that is run somewhere in
a run of a program stands in the program: it is part of the program itself, or of the body of a
function, and the functions of a machine that started without any were declared by the program
(`Phase.Contains.made`). The built-in functions are those of the start at all moments
(`Machine.Meets.builtins`).
-/

namespace Lox

/-- The code may be run under the discipline. -/
def Discipline.Allows (D : Discipline) : Code → Prop
  | .eval e => ∀ e' ∈ e.nodes, D.Permitted e'
  | .evalAll es => ∀ e ∈ Expr.nodesAll es, D.Permitted e
  | .call f vs _ => D.Val f ∧ ∀ v ∈ vs, D.Val v
  | .exec s => ∀ e ∈ s.nodes, D.Permitted e
  | .execAll ss => ∀ e ∈ Stmt.nodesAll ss, D.Permitted e

variable {D : Discipline}

namespace Discipline

theorem Allows.first {code code' : Code} (h : D.Allows code) (hfirst : code.first? = some code') :
    D.Allows code' := by
  cases code with
  | eval e =>
    cases e with
    | literal | var => cases hfirst
    | assign | unary | group =>
      cases hfirst
      exact (List.forall_mem_cons.1 h).2
    | binary | logical | call =>
      cases hfirst
      exact (List.forall_mem_append.1 (List.forall_mem_cons.1 h).2).1
  | evalAll es =>
    cases es with
    | nil => cases hfirst
    | cons =>
      cases hfirst
      exact (List.forall_mem_append.1 h).1
  | call => cases hfirst
  | exec s =>
    cases s with
    | block | func => cases hfirst
    | expr | print | var | ret =>
      cases hfirst
      exact h
    | branch | loop =>
      cases hfirst
      exact (List.forall_mem_append.1 h).1
  | execAll ss =>
    cases ss with
    | nil => cases hfirst
    | cons =>
      cases hfirst
      exact (List.forall_mem_append.1 h).1

end Discipline

namespace Phase

variable {j k : Nat} {c c' : Phase}

theorem Part.disciplined (h : Part j c c') (hm : D.Inv c.machine) (hc : D.Allows c.code) :
    D.Inv c'.machine ∧ D.Allows c'.code := by
  have heval {n e m v m₁} (hm : D.Inv m) (he : D.Allows (.eval e))
      (h : eval n e m = some (.ok v, m₁)) : D.Inv m₁ ∧ D.Val v :=
    have hkeeps := (D.runs n).eval e he m _ m₁ hm h
    ⟨D.inv hkeeps.1, hkeeps.2 v rfl⟩
  have hexec {n s m completion m₁} (hm : D.Inv m) (hs : D.Allows (.exec s))
      (h : exec n s m = some (.ok completion, m₁)) : D.Inv m₁ :=
    D.inv ((D.runs n).exec s hs m _ m₁ hm h).1
  cases h with
  | first hfirst => exact ⟨hm, hc.first hfirst⟩
  | right h | logicalRight h | arguments h =>
    obtain ⟨hleft, hright⟩ := List.forall_mem_append.1 (List.forall_mem_cons.1 hc).2
    exact ⟨(heval hm hleft h).1, hright⟩
  | @call n _ es _ _ f m₁ vs m₂ h h' =>
    obtain ⟨hcallee, hes⟩ := List.forall_mem_append.1 (List.forall_mem_cons.1 hc).2
    obtain ⟨hm₁, hf⟩ := heval hm hcallee h
    have hkeeps := (D.runs n).evalAll es hes m₁ _ m₂ hm₁ h'
    exact ⟨D.inv hkeeps.1, hf, hkeeps.2 vs rfl⟩
  | tail h =>
    obtain ⟨he, hes⟩ := List.forall_mem_append.1 hc
    exact ⟨(heval hm he h).1, hes⟩
  | body =>
    obtain ⟨hf, hvs⟩ := hc
    exact ⟨D.enter (D.call hm hf) fun b hb => hvs b.2 (List.of_mem_zip hb).2, D.body hf⟩
  | block => exact ⟨D.enter hm nofun, hc⟩
  | yes h =>
    obtain ⟨hcondition, hbranches⟩ := List.forall_mem_append.1 hc
    exact ⟨(heval hm hcondition h).1, (List.forall_mem_append.1 hbranches).1⟩
  | no h =>
    obtain ⟨hcondition, hbranches⟩ := List.forall_mem_append.1 hc
    exact ⟨(heval hm hcondition h).1, (List.forall_mem_append.1 hbranches).2⟩
  | turn h =>
    obtain ⟨hcondition, hbody⟩ := List.forall_mem_append.1 hc
    exact ⟨(heval hm hcondition h).1, hbody⟩
  | again h _ h' =>
    obtain ⟨hcondition, hbody⟩ := List.forall_mem_append.1 hc
    exact ⟨hexec (heval hm hcondition h).1 hbody h', hc⟩
  | rest h =>
    obtain ⟨hs, hss⟩ := List.forall_mem_append.1 hc
    exact ⟨hexec hm hs h, hss⟩

theorem Contains.disciplined (h : Contains k c c') (hm : D.Inv c.machine) (hc : D.Allows c.code) :
    D.Inv c'.machine ∧ D.Allows c'.code := by
  induction h with
  | self => exact ⟨hm, hc⟩
  | part hpart _ ih =>
    obtain ⟨hm', hc'⟩ := hpart.disciplined hm hc
    exact ih hm' hc'

theorem inv_of_end {m : Machine} (h : c.end? = some m) (hm : D.Inv c.machine)
    (hc : D.Allows c.code) : D.Inv m := by
  obtain ⟨n, code, m₀⟩ := c
  cases code <;> obtain ⟨⟨r, m₁⟩, hrun, rfl⟩ := Option.map_eq_some_iff.1 h
  · exact D.inv ((D.runs n).eval _ hc m₀ r m₁ hm hrun).1
  · exact D.inv ((D.runs n).evalAll _ hc m₀ r m₁ hm hrun).1
  · exact D.inv ((D.runs n).call _ _ _ hc.1 hc.2 m₀ r m₁ hm hrun).1
  · exact D.inv ((D.runs n).exec _ hc m₀ r m₁ hm hrun).1
  · exact D.inv ((D.runs n).execAll _ hc m₀ r m₁ hm hrun).1

theorem Passes.disciplined {m : Machine} (h : c.Passes m) (hm : D.Inv c.machine)
    (hc : D.Allows c.code) : D.Inv m := by
  cases h with
  | start h => exact (h.disciplined hm hc).1
  | finish h hend =>
    obtain ⟨hm', hc'⟩ := h.disciplined hm hc
    exact inv_of_end hend hm' hc'

end Phase

-- ---------------------------------------------------------------------------
-- Built-in functions
-- ---------------------------------------------------------------------------

/-- The machine has the given built-in functions all the time. -/
def Discipline.equipped (builtins : List Builtin) : Discipline where
  Permitted _ := True
  Inv m := m.builtins = builtins
  Val _ := True
  Rel _ _ m' := m'.builtins = builtins
  inv h := h
  refl _ _ h := h
  trans _ h := h
  mono _ h := h
  plain _ := trivial
  body _ _ _ := trivial
  lookup _ _ := trivial
  builtin _ _ _ _ := trivial
  tick h := h
  print _ h := h
  assign h _ _ _ := h
  define _ _ h _ := h
  declare _ _ _ h _ := h
  enter h _ := h
  leave _ h := h
  call h _ := h
  back _ h := h

namespace Machine

variable {m₀ m : Machine}

theorem builtins_start (callLimit : Nat) (builtins : List Builtin) (defined : Nat) :
    (start callLimit builtins defined).builtins = builtins := by
  have hfold (bs : List Builtin) (m : Machine) :
      (bs.foldl defineBuiltin m).builtins = m.builtins := by
    induction bs generalizing m with
    | nil => rfl
    | cons b bs ih => exact ih (m.defineBuiltin b)
  exact hfold _ _

theorem Session.builtins (h : m₀.Session m) : m.builtins = m₀.builtins := by
  induction h with
  | start => rfl
  | run _ hrun ih => exact (interpret_kept hrun).builtins.trans ih
  | flush _ ih => exact ih

theorem Meets.builtins (h : m₀.Meets m) : m.builtins = m₀.builtins := by
  obtain ⟨m₁, n, program, hsession, hpasses⟩ := h
  exact hpasses.disciplined (D := .equipped m₀.builtins) hsession.builtins fun _ _ => trivial

end Machine

-- ---------------------------------------------------------------------------
-- Functions made of given expressions
-- ---------------------------------------------------------------------------

/-- If the value is a function, its body is made of the expressions in `P`. -/
def Value.MadeOf (P : Expr → Prop) : Value → Prop
  | function f => ∀ e ∈ Stmt.nodesAll f.body, P e
  | _ => True

/-- All functions that a run on the machine may come by are made of the expressions in `P`, if its
code is. -/
structure Machine.MadeOf (P : Expr → Prop) (m : Machine) : Prop where
  values : ∀ {i x v}, m.store.get? i x = some v → v.MadeOf P
  builtins : ∀ b ∈ m.builtins, ∀ vs moment v, (∀ w ∈ vs, w.MadeOf P) →
    b.run vs moment = .ok v → v.MadeOf P

namespace Machine.MadeOf

variable {P : Expr → Prop} {m : Machine} {v : Value}

theorem define (h : m.MadeOf P) (hv : v.MadeOf P) (i : ScopeId) (x : String) :
    MadeOf P { m with store := m.store.define i x v } where
  values hw := by
    rcases Store.eq_or_get?_of_define hw with rfl | hw
    · exact hv
    · exact h.values hw
  builtins := h.builtins

theorem declare (h : m.MadeOf P) (name : String) (parameters : List String) {body : List Stmt}
    (hbody : ∀ e ∈ Stmt.nodesAll body, P e) : (m.declare name parameters body).MadeOf P :=
  have hm : m.newIdentity.2.MadeOf P := ⟨h.values, h.builtins⟩
  hm.define (v := .function ⟨m.callables, name, parameters, body, m.env.current⟩) hbody _ name

theorem enter {bs : List (String × Value)} (h : m.MadeOf P) (hbs : ∀ b ∈ bs, b.2.MadeOf P) :
    (m.enter bs).MadeOf P where
  values hw := by
    rcases mem_or_get?_of_enter hw with ⟨b, hb, rfl⟩ | hw
    · exact hbs b hb
    · exact h.values hw
  builtins := h.builtins

theorem fresh (P : Expr → Prop) (callLimit : Nat) (readings : Readings) :
    (Machine.fresh callLimit readings).MadeOf P where
  values h := by
    rcases Store.eq_or_get?_of_define h with rfl | h
    · trivial
    · have hempty : Store.empty.get? _ _ = some _ := Store.get?_of_allocate h
      simp [Store.get?, Store.empty] at hempty
  builtins b hb vs moment v _ h := by
    obtain rfl : b = .clockOf readings := List.mem_singleton.1 hb
    obtain ⟨now, rfl⟩ := Builtin.number_of_clockOf h
    trivial

end Machine.MadeOf

/-- Code that is made of the expressions in `P` makes no other functions. -/
def Discipline.made (P : Expr → Prop) : Discipline where
  Permitted := P
  Inv m := m.MadeOf P
  Val v := v.MadeOf P
  Rel _ _ m' := m'.MadeOf P
  inv h := h
  refl _ _ h := h
  trans _ h := h
  mono _ h := h
  plain {v} h := by
    cases v with
    | function f => exact absurd rfl h
    | number | string | boolean | nil | native => trivial
  body hf := hf
  lookup hm h := by
    obtain ⟨i, -, hv⟩ := Option.bind_eq_some_iff.1 h
    exact hm.values hv
  builtin hm hb hvs hrun := hm.builtins _ hb _ _ _ hvs hrun
  tick hm := ⟨hm.values, hm.builtins⟩
  print _ hm := ⟨hm.values, hm.builtins⟩
  assign hm _ hv _ := hm.define hv _ _
  define name _ hm hv := hm.define hv _ name
  declare name parameters _ hm h := hm.declare name parameters h
  enter hm hbs := hm.enter hbs
  leave _ h := ⟨h.values, h.builtins⟩
  call hm _ := ⟨hm.values, hm.builtins⟩
  back _ h := ⟨h.values, h.builtins⟩

/-- The code of a phase is made of the same expressions as the code that it is a phase of, if the
functions that there were before are. -/
theorem Phase.Contains.made {P : Expr → Prop} {k : Nat} {c c' : Phase} (h : Contains k c c')
    (hm : c.machine.MadeOf P) (hc : (Discipline.made P).Allows c.code) :
    (Discipline.made P).Allows c'.code :=
  (h.disciplined hm hc).2

end Lox
