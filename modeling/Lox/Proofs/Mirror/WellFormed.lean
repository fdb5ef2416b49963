-- SUMMARY: Whatever a session does, its scopes form one tree, and its open scopes a path in it.
import Lox.Proofs.Mirror.Run
import Lox.Proofs.Run.Growth
import Lox.Proofs.Run.Host

/-!
## Well-formed machines

A machine is well formed if it mirrors itself, so that all its functions carry scopes that exist,
and if each of its open scopes is the parent of the one that was opened in it. Runs go alongside
themselves, and so they keep a machine well formed at all their moments, also if they fail. On a
well-formed machine every chain of scopes ends in the global scope (`scopes_well_formed`).
-/

namespace Lox

open Attempt

variable {m m' : Machine} {i p : ScopeId} {n line : Nat} {bs : List (String × Value)}

theorem Store.Grown.parent? {σ σ' : Store} (h : σ.Grown σ') (hp : σ.parent? i = some p) :
    σ'.parent? i = some p := by
  obtain ⟨s, hs, hp⟩ := Option.bind_eq_some_iff.1 hp
  obtain ⟨s', hs', hsame, -⟩ := h i s hs
  exact Option.bind_eq_some_iff.2 ⟨s', hs', hsame.trans hp⟩

theorem Run.Alongside.self {α : Type} {ρ : Correspondence} {P : Correspondence → α → α → Prop}
    {x : Run α} {r : Except RuntimeError α} (h : Run.Alongside ρ m m P x x)
    (hx : x m = some (r, m')) :
    m.Together ρ m m' m' ∧ ∀ a, r = .ok a → P (ρ.on m') a a := by
  unfold Run.Alongside at h
  rw [hx] at h
  cases h with
  | error h => exact ⟨h, nofun⟩
  | ok h hab => exact ⟨h, by rintro _ ⟨⟩; exact hab⟩

namespace Machine

/-- The value is made of a function or native of the machine and of one of its scopes, if of any. -/
def Has (m : Machine) (v : Value) : Prop :=
  v.Pairs (Correspondence.same.on m) v

theorem parent?_enter (m : Machine) (bs : List (String × Value)) :
    (m.enter bs).store.parent? m.store.size = some m.env.current := by
  have hnew : (m.store.allocate (some m.env.current)).2.scopes[m.store.size]? =
      some { bindings := [], parent? := some m.env.current } := by
    rw [Store.getElem?_allocate, if_pos rfl]
  obtain ⟨s, hs, hparent, -⟩ := Store.defineAll_binds bs hnew
  exact Option.bind_eq_some_iff.2 ⟨s, hs, hparent⟩

/-- The machine mirrors itself, and each open scope is the parent of the one opened in it. The
global scope is the first that was made. -/
structure WellFormed (m : Machine) : Prop where
  mirrors : m.Mirrors .same m
  current : m.env.current < m.store.size
  linked : m.env.scopes.IsChain fun i p => m.store.parent? i = some p
  global : m.env.global = 0

namespace WellFormed

-- ---------------------------------------------------------------------------
-- Runs
-- ---------------------------------------------------------------------------

theorem level (hm : m.WellFormed) : m.Level .same m :=
  ⟨hm.current, rfl⟩

theorem abreast (hm : m.WellFormed) : m.Abreast .same m :=
  hm.level.abreast

theorem after (hm : m.WellFormed) (h : m.Together .same m m' m') (hgrown : m.store.Grown m'.store) :
    m'.WellFormed where
  mirrors := h.mirrors
  current := by
    rw [h.env]
    exact Nat.lt_of_lt_of_le hm.current h.size
  linked := by
    rw [h.env]
    exact hm.linked.imp fun _ _ => hgrown.parent?
  global := by rw [h.env, hm.global]

section

variable (hm : m.WellFormed)

include hm

theorem eval {e : Expr} {r : Except RuntimeError Value} (h : eval n e m = some (r, m')) :
    m'.WellFormed ∧ ∀ v, r = .ok v → m'.Has v := by
  obtain ⟨htogether, hvalue⟩ := ((runsAlongside .same n).eval e hm.mirrors hm.abreast).self h
  exact ⟨hm.after htogether (Run.Grows.eval _ _ _ _ _ h), hvalue⟩

theorem evalAll {es : List Expr} {r : Except RuntimeError (List Value)}
    (h : evalAll n es m = some (r, m')) :
    m'.WellFormed ∧
      ∀ vs, r = .ok vs → List.Forall₂ (Value.Pairs (Correspondence.same.on m')) vs vs := by
  obtain ⟨htogether, hvalues⟩ := ((runsAlongside .same n).evalAll es hm.mirrors hm.abreast).self h
  exact ⟨hm.after htogether (Run.Grows.evalAll _ _ _ _ _ h), hvalues⟩

theorem call {f : Value} {vs : List Value} {r : Except RuntimeError Value} (hf : m.Has f)
    (hvs : List.Forall₂ (Value.Pairs (Correspondence.same.on m)) vs vs)
    (h : call n f vs line m = some (r, m')) : m'.WellFormed :=
  hm.after (((runsAlongside .same n).call line hm.mirrors hf hvs).self h).1
    (Run.Grows.call _ _ _ _ _ _ _ h)

theorem exec {s : Stmt} {r : Except RuntimeError Completion} (h : exec n s m = some (r, m')) :
    m'.WellFormed :=
  hm.after (((runsAlongside .same n).exec s hm.mirrors (hm.level.ready _)).self h).1
    (Run.Grows.exec _ _ _ _ _ h)

theorem execAll {ss : List Stmt} {r : Except RuntimeError Completion}
    (h : execAll n ss m = some (r, m')) : m'.WellFormed :=
  hm.after (((runsAlongside .same n).execAll ss hm.mirrors (hm.level.ready _)).self h).1
    (Run.Grows.execAll _ _ _ _ _ h)

theorem enter (hbs : PairsAll (Correspondence.same.on m) bs bs) : (m.enter bs).WellFormed where
  mirrors := (hm.mirrors.enter hm.abreast hbs).1
  current := (hm.mirrors.enter hm.abreast hbs).2.1
  linked := by
    refine List.IsChain.cons_cons (parent?_enter m bs) ?_
    exact hm.linked.imp fun _ _ => (Store.grown_enter m bs).parent?
  global := hm.global

theorem calling (hi : i < m.store.size) : (m.calling i).WellFormed where
  mirrors := (hm.mirrors.calling ⟨hi, rfl⟩).1
  current := hi
  linked := .singleton _
  global := hm.global

end

-- ---------------------------------------------------------------------------
-- Fresh machines
-- ---------------------------------------------------------------------------

theorem defineBuiltin (b : Builtin) (hm : m.WellFormed) : (m.defineBuiltin b).WellFormed := by
  have hnew := hm.mirrors.newIdentity
  have hglobal : m.env.global < m.store.size := by
    rw [hm.global]
    exact Nat.lt_of_le_of_lt (Nat.zero_le _) hm.current
  have hnative : Machine.Has { m with callables := m.callables + 1 }
      (.native ⟨m.callables, b.name, b.arity⟩) := .native ⟨Nat.lt_succ_self _, rfl⟩
  have hbind := hnew.mirrors.bindAt b.name ⟨hglobal, rfl⟩ hnative
  exact hm.after (hnew.trans hbind) (Store.Kept.define m.store _ b.name _).grown

/-- A machine with nothing but an empty global scope. -/
theorem empty (callLimit : Nat) {builtins : List Builtin} (hb : ∀ b ∈ builtins, b.Parametric) :
    WellFormed
      { store := (Store.empty.allocate none).2, env := .atGlobal 0, callLimit, builtins } := by
  have hscope {i : ScopeId} {s : Scope} (hs : (Store.empty.allocate none).2.scopes[i]? = some s) :
      i = 0 ∧ s = { bindings := [], parent? := none } := by
    rw [Store.getElem?_allocate] at hs
    split at hs
    · next hi => exact ⟨hi, (Option.some.inj hs).symm⟩
    · cases hs
  refine ⟨⟨⟨fun hs _ => (hscope hs).1, fun hs hp => ?_⟩, ⟨fun {i j} hij => ?_, fun _ => rfl⟩,
    fun _ => rfl, rfl, rfl, rfl, fun b hmem _ => hb b hmem _⟩, Nat.zero_lt_one, .singleton _, rfl⟩
  · rw [(hscope hs).2] at hp
    cases hp
  · obtain ⟨hi, rfl⟩ := hij
    have hs := Array.getElem?_eq_getElem hi
    refine ⟨_, _, hs, hs, ?_⟩
    rw [(hscope hs).2]
    exact ⟨.none, fun _ => .none⟩

theorem start (callLimit : Nat) {builtins : List Builtin} (defined : Nat)
    (hb : ∀ b ∈ builtins, b.Parametric) :
    (Machine.start callLimit builtins defined).WellFormed := by
  have hfold (bs : List Builtin) {m : Machine} (hm : m.WellFormed) :
      (bs.foldl Machine.defineBuiltin m).WellFormed := by
    induction bs generalizing m with
    | nil => exact hm
    | cons b bs ih => exact ih (hm.defineBuiltin b)
  exact hfold _ (.empty callLimit hb)

end WellFormed
end Machine

-- ---------------------------------------------------------------------------
-- Moments
-- ---------------------------------------------------------------------------

namespace Phase

variable {j k : Nat} {c c' : Phase}

/-- The phase starts on a well-formed machine, and the values in a call are values of it. -/
structure Valid (c : Phase) : Prop where
  machine : c.machine.WellFormed
  call : ∀ {f vs line}, c.code = .call f vs line → c.machine.Has f ∧
    List.Forall₂ (Value.Pairs (Correspondence.same.on c.machine)) vs vs

theorem Valid.part (hvalid : c.Valid) (hpart : Part j c c') : c'.Valid := by
  have hm := hvalid.machine
  cases hpart with
  | @first n k k' m hfirst =>
    refine ⟨hm, fun {f vs line} hcode => ?_⟩
    cases hcode
    exact absurd hfirst k.first?_ne_call
  | right h | logicalRight h | arguments h | tail h | yes h | no h | turn h =>
    exact ⟨(hm.eval h).1, nofun⟩
  | call h h' =>
    obtain ⟨hm₁, hf⟩ := hm.eval h
    obtain ⟨htogether, hvs⟩ := ((runsAlongside .same _).evalAll _ hm₁.mirrors hm₁.abreast).self h'
    refine ⟨(hm₁.evalAll h').1, fun hcode => ?_⟩
    cases hcode
    exact ⟨(hf _ rfl).mono htogether.within, hvs _ rfl⟩
  | again h _ h' => exact ⟨(hm.eval h).1.exec h', nofun⟩
  | rest h => exact ⟨hm.exec h, nofun⟩
  | body =>
    obtain ⟨hf, hvs⟩ := hvalid.call rfl
    cases hf with
    | function _ hscope =>
      exact ⟨(hm.calling hscope.1).enter (.zip hvs _), nofun⟩
  | block => exact ⟨hm.enter .nil, nofun⟩

theorem Valid.contains (h : c.Valid) (hcontains : Contains k c c') : c'.Valid := by
  induction hcontains with
  | self => exact h
  | part hpart _ ih => exact ih (h.part hpart)

theorem Valid.ends (h : c.Valid) (hend : c.end? = some m) : m.WellFormed := by
  obtain ⟨n, code, m₀⟩ := c
  have hm := h.machine
  cases code <;> obtain ⟨⟨r, m₁⟩, hrun, rfl⟩ := Option.map_eq_some_iff.1 hend
  · exact (hm.eval hrun).1
  · exact (hm.evalAll hrun).1
  · exact hm.call (h.call rfl).1 (h.call rfl).2 hrun
  · exact hm.exec hrun
  · exact hm.execAll hrun

theorem Valid.passes (h : c.Valid) (hpasses : c.Passes m) : m.WellFormed := by
  cases hpasses with
  | start hcontains => exact (h.contains hcontains).machine
  | finish hcontains hend => exact (h.contains hcontains).ends hend

end Phase

-- ---------------------------------------------------------------------------
-- Sessions
-- ---------------------------------------------------------------------------

namespace Machine

variable {m₀ : Machine}

theorem Session.wellFormed (hm₀ : m₀.WellFormed) (h : m₀.Session m) : m.WellFormed := by
  induction h with
  | start => exact hm₀
  | run _ hrun ih =>
    rcases bind_eq_some hrun with ⟨e, hrun, -⟩ | ⟨c, m₁, hrun, hend⟩
    · exact ih.execAll hrun
    · cases hend
      exact ih.execAll hrun
  | flush _ ih =>
    have hm := ih.mirrors
    exact ⟨⟨hm.hung, hm.store, hm.nextIdentity, rfl, rfl, rfl, hm.parallel⟩, ih.current,
      ih.linked, ih.global⟩

theorem Session.grown (h : m₀.Session m) : m₀.store.Grown m.store := by
  induction h with
  | start => exact .refl _
  | run _ hrun ih => exact ih.trans (interpret_kept hrun).scopes.grown
  | flush _ ih => exact ih

theorem Meets.wellFormed (hm₀ : m₀.WellFormed) (h : m₀.Meets m) : m.WellFormed := by
  obtain ⟨m₁, n, program, hsession, hpasses⟩ := h
  have hvalid : Phase.Valid ⟨n, .execAll program, m₁⟩ := ⟨hsession.wellFormed hm₀, nofun⟩
  exact hvalid.passes hpasses

namespace WellFormed

variable (hm : m.WellFormed)

include hm

theorem lt_size_of_open : ∀ i ∈ m.env.scopes, i < m.store.size :=
  hm.mirrors.hung.ordered.lt_size_of_path hm.current hm.linked

/-- What is bound on the machine is a value of it. -/
theorem has_of_get? {x : String} {v : Value} (h : m.store.get? i x = some v) : m.Has v := by
  obtain ⟨s, hs, -⟩ := Option.bind_eq_some_iff.1 h
  have hpair := hm.mirrors.store.get? ⟨Store.lt_size hs, rfl⟩ x
  rw [h] at hpair
  cases hpair with
  | some hpair => exact hpair

end WellFormed
end Machine

theorem scopes_well_formed {callLimit defined : Nat} {builtins : List Builtin} {m : Machine}
    (hbuiltins : ∀ b ∈ builtins, b.Parametric)
    (hm : (Machine.start callLimit builtins defined).Meets m) :
    (m.env.scopes.IsChain fun i p => m.store.parent? i = some p) ∧
    (∀ i, (i ∈ m.env.scopes ∨ ∃ j x f, m.store.get? j x = some (.function f) ∧ f.scope = i) →
      ∃ is, m.store.Chain i is ∧ is.getLast? = some m.env.global ∧ is.Nodup ∧
        (∀ x, m.store.holder? x i = is.find? fun j => (m.store.get? j x).isSome) ∧
        (∀ x n, (m.store.searched x n i).Nodup ∧ m.store.holderWithin x n i =
          (m.store.searched x n i).find? fun j => (m.store.get? j x).isSome) ∧
        ∀ x, (∀ j ∈ is, j ≠ m.env.global → m.store.get? j x = none) →
          m.store.lookup i x = m.store.get? m.env.global x) ∧
    m.env.global = 0 ∧
    (∀ c : Phase, c.Passes m → c.machine.store.Grown m.store ∧
      ∀ m', c.end? = some m' → m.store.Grown m'.store) ∧
    ∀ m', m.Session m' → m.store.Grown m'.store := by
  have hwell := hm.wellFormed (.start callLimit defined hbuiltins)
  have hhung := hwell.mirrors.hung
  refine ⟨hwell.linked, fun i hi => ?_, hwell.global, fun c hc => hc.grown, fun m' h => h.grown⟩
  have hlt : i < m.store.size := by
    rcases hi with hopen | ⟨j, x, f, hf, rfl⟩
    · exact hwell.lt_size_of_open i hopen
    · cases hwell.has_of_get? hf with
      | function _ hscope => exact hscope.1
  obtain ⟨is, hchain⟩ := hhung.exists_chain hlt
  exact ⟨is, hchain, hchain.getLast? hhung, hchain.nodup hhung, hchain.holder? hhung,
    fun x n => ⟨hchain.searched_nodup hhung x n, Store.holderWithin_eq_find? n⟩,
    fun x => hchain.lookup_global hhung⟩

/-- The block `{ fun f() {} }` right before it is left. Its function is stored in the scope that it
carries. -/
theorem block_scopes_well_formed :
    let m := ((Machine.start 9 [.clock 0] 1).enter []).declare "f" [] []
    (∀ b ∈ [Builtin.clock 0], b.Parametric) ∧ (Machine.start 9 [.clock 0] 1).Meets m ∧
      m.env.scopes = [1, 0] ∧
      ∃ f, m.store.get? 1 "f" = some (.function f) ∧
        ∃ is, m.store.Chain f.scope is ∧ is.getLast? = some m.env.global ∧ is.Nodup := by
  intro m
  have hbuiltins : ∀ b ∈ [Builtin.clock 0], b.Parametric :=
    List.forall_mem_singleton.2 (Builtin.parametric_clockOf _)
  have hmeets : (Machine.start 9 [.clock 0] 1).Meets m :=
    ⟨_, 9, [.block [.func ⟨"f", 1⟩ [] [] 1] 1], .start,
      .finish (.part (.first rfl) (.part .block (.self _))) rfl⟩
  obtain ⟨-, hscopes, -⟩ := scopes_well_formed hbuiltins hmeets
  refine ⟨hbuiltins, hmeets, rfl, _, rfl, ?_⟩
  obtain ⟨is, hchain, hlast, hnodup, -⟩ := hscopes 1 (.inr ⟨1, "f", _, rfl, rfl⟩)
  exact ⟨is, hchain, hlast, hnodup⟩

end Lox
