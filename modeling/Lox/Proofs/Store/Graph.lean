-- SUMMARY: What is read after any sequence of operations on shared scopes and environments.
import Lox.Proofs.Store.Nearest
import Lox.Run.Machine

/-!
## Graphs of scopes

Scopes are shared: between environments, with the functions declared in them, and with the calls of
these functions. A graph is what a sequence of operations makes of no scopes at all. In every graph
parents are older than their children, and the open scopes of an environment are a path through
parents. So writes are read exactly where the same binding is nearest, and an environment reads its
open scopes from the current one on, and then those beyond the last (`reads_follow_writes`).
-/

namespace Lox

/-- Scopes, and environments that have some of them open. -/
structure ScopeGraph where
  store : Store
  environments : List Environment

namespace ScopeGraph

def empty : ScopeGraph where
  store := .empty
  environments := []

/-- What is done to a graph. Environments are numbered as they are made, like scopes. -/
inductive Operation where
  /-- Makes an environment with a global scope of its own. -/
  | environment
  /-- Makes a scope that no environment has open. -/
  | scope (parent? : Option ScopeId)
  | push (k : Nat)
  | pop (k : Nat)
  /-- Makes the environment of a call, of a function that was declared in the scope. -/
  | enclosed (k : Nat) (i : ScopeId)
  | define (i : ScopeId) (x : String) (v : Value)
  | assign (i : ScopeId) (x : String) (v : Value)
  | defineCurrent (k : Nat) (x : String) (v : Value)
  | assignCurrent (k : Nat) (x : String) (v : Value)
  | defineGlobal (k : Nat) (x : String) (v : Value)

/-- Does something with an environment, if there is one of this number. -/
def withEnvironment (g : ScopeGraph) (k : Nat) (f : Environment → ScopeGraph) : ScopeGraph :=
  match g.environments[k]? with
  | some env => f env
  | none => g

def define (g : ScopeGraph) (i : ScopeId) (x : String) (v : Value) : ScopeGraph :=
  { g with store := g.store.define i x v }

/-- An assignment that fails changes nothing. -/
def assign (g : ScopeGraph) (i : ScopeId) (x : String) (v : Value) : ScopeGraph :=
  { g with store := (g.store.assign i x v).getD g.store }

/-- One operation. It has no effect if it names a scope or an environment that there is not. -/
def apply (g : ScopeGraph) : Operation → ScopeGraph
  | .environment =>
    ⟨(g.store.allocate none).2, g.environments ++ [.atGlobal (g.store.allocate none).1]⟩
  | .scope parent? =>
    if ∀ p ∈ parent?, p < g.store.size then
      { g with store := (g.store.allocate parent?).2 }
    else
      g
  | .push k => g.withEnvironment k fun env =>
    ⟨(g.store.allocate (some env.current)).2,
      g.environments.set k (env.push (g.store.allocate (some env.current)).1)⟩
  | .pop k => g.withEnvironment k fun env =>
    { g with environments := g.environments.set k env.pop }
  | .enclosed k i => g.withEnvironment k fun env =>
    if i < g.store.size then
      { g with environments := g.environments ++ [env.enclosed i] }
    else
      g
  | .define i x v => g.define i x v
  | .assign i x v => g.assign i x v
  | .defineCurrent k x v => g.withEnvironment k fun env => g.define env.current x v
  | .assignCurrent k x v => g.withEnvironment k fun env => g.assign env.current x v
  | .defineGlobal k x v => g.withEnvironment k fun env => g.define env.global x v

/-- The graph that a sequence of operations makes. -/
def build (ops : List Operation) : ScopeGraph :=
  ops.foldl apply empty

end ScopeGraph

variable {σ σ' : Store} {i b : ScopeId} {is outer : List ScopeId} {x : String} {v : Value}
  {env env' : Environment} {g : ScopeGraph} {k : Nat}

-- ---------------------------------------------------------------------------
-- Open scopes
-- ---------------------------------------------------------------------------

/-- The open scopes of the environment are scopes of the store, and each is the parent of the one
that was opened in it. -/
structure Environment.Lies (env : Environment) (σ : Store) : Prop where
  current : env.current < σ.size
  linked : env.scopes.IsChain fun i p => σ.parent? i = some p

namespace Environment.Lies

/-- A store that grows leaves an environment where it is. -/
theorem mono (h : env.Lies σ) (hsize : σ.size ≤ σ'.size)
    (hparent : ∀ i p, σ.parent? i = some p → σ'.parent? i = some p) : env.Lies σ' where
  current := Nat.lt_of_lt_of_le h.current hsize
  linked := h.linked.imp hparent

theorem define (h : env.Lies σ) : env.Lies (σ.define i x v) :=
  h.mono (Nat.le_of_eq Store.size_define.symm) fun _ _ hp => Store.parent?_define.trans hp

theorem allocate (h : env.Lies σ) (p? : Option ScopeId) : env.Lies (σ.allocate p?).2 := by
  refine h.mono (by rw [Store.size_allocate]; exact Nat.le_succ _) fun i p hp => ?_
  obtain ⟨s, hs, -⟩ := Option.bind_eq_some_iff.1 hp
  rw [Store.parent?_allocate, if_neg (Nat.ne_of_lt (Store.lt_size hs)), hp]

theorem push (h : env.Lies σ) : (env.push σ.size).Lies (σ.allocate (some env.current)).2 where
  current := by rw [Store.size_allocate]; exact Nat.lt_succ_self _
  linked := by
    refine List.isChain_cons_cons.2 ⟨?_, (h.allocate (some env.current)).linked⟩
    exact Store.parent?_allocate.trans (if_pos rfl)

theorem pop (h : env.Lies σ) (hσ : σ.Ordered) : env.pop.Lies σ := by
  obtain ⟨current, enclosing, global⟩ := env
  cases enclosing with
  | nil => exact h
  | cons p rest =>
    obtain ⟨hp, hrest⟩ := List.isChain_cons_cons.1 h.linked
    exact ⟨Nat.lt_trans (hσ.older hp) h.current, hrest⟩

theorem atGlobal (h : i < σ.size) : (Environment.atGlobal i).Lies σ :=
  ⟨h, .singleton i⟩

theorem enclosed (h : i < σ.size) (env : Environment) : (env.enclosed i).Lies σ :=
  ⟨h, .singleton i⟩

end Environment.Lies

/-- The parents beyond a path of parents continue it. -/
theorem Store.Chain.of_path (h : (i :: is).IsChain fun i p => σ.parent? i = some p)
    (hlast : (i :: is).getLast? = some b) (hb : σ.Chain b (b :: outer)) :
    σ.Chain i (i :: is ++ outer) := by
  induction is generalizing i with
  | nil =>
    obtain rfl := Option.some.inj hlast
    exact hb
  | cons p is ih =>
    obtain ⟨hp, hrest⟩ := List.isChain_cons_cons.1 h
    obtain ⟨s, hs, hp⟩ := Option.bind_eq_some_iff.1 hp
    exact .link hs hp (ih hrest (by rwa [List.getLast?_cons_cons] at hlast))

theorem Store.Chain.eq_cons (h : σ.Chain i is) : ∃ outer, is = i :: outer := by
  cases h with
  | root => exact ⟨_, rfl⟩
  | link => exact ⟨_, rfl⟩

/-- An environment searches its open scopes, and then the parents of the last of them. -/
theorem Environment.Lies.search (h : env.Lies σ) (hσ : σ.Ordered) :
    ∃ bottom outer, env.scopes.getLast? = some bottom ∧ σ.Chain bottom (bottom :: outer) ∧
      ∀ x, σ.lookup env.current x = (env.scopes ++ outer).findSome? fun i => σ.get? i x := by
  obtain ⟨bottom, hlast⟩ : ∃ bottom, env.scopes.getLast? = some bottom :=
    Option.isSome_iff_exists.1 (by simp [Environment.scopes])
  have hlt : bottom < σ.size :=
    hσ.lt_size_of_path h.current h.linked bottom (List.mem_of_getLast? hlast)
  obtain ⟨is, hchain⟩ := hσ.exists_chain hlt
  obtain ⟨outer, rfl⟩ := hchain.eq_cons
  refine ⟨bottom, outer, hlast, hchain, fun x => ?_⟩
  exact (Store.Chain.of_path h.linked hlast hchain).lookup_eq_findSome? hσ x

-- ---------------------------------------------------------------------------
-- Operations
-- ---------------------------------------------------------------------------

namespace ScopeGraph

/-- The parents of the scopes are older than they are, and each environment has a path of them
open. -/
structure Sound (g : ScopeGraph) : Prop where
  ordered : g.store.Ordered
  lies : ∀ env ∈ g.environments, env.Lies g.store

namespace Sound

theorem empty : ScopeGraph.empty.Sound where
  ordered := .empty
  lies := nofun

theorem define (h : g.Sound) : (g.define i x v).Sound where
  ordered := h.ordered.define
  lies env henv := (h.lies env henv).define

theorem assign (h : g.Sound) : (g.assign i x v).Sound := by
  unfold ScopeGraph.assign
  cases hassign : g.store.assign i x v with
  | none => exact h
  | some σ =>
    obtain ⟨j, -, rfl⟩ := (Store.assign_eq_some_iff h.ordered).1 hassign
    exact h.define

theorem withEnvironment {f : Environment → ScopeGraph} (h : g.Sound)
    (hf : ∀ env, env.Lies g.store → (f env).Sound) : (g.withEnvironment k f).Sound := by
  unfold ScopeGraph.withEnvironment
  split
  · next env henv => exact hf env (h.lies env (List.mem_of_getElem? henv))
  · exact h

theorem lies_append (h : g.Sound) (henv : env.Lies σ)
    (hgrown : ∀ env : Environment, env.Lies g.store → env.Lies σ) :
    ∀ env' ∈ g.environments ++ [env], env'.Lies σ := by
  intro env' hmem
  rcases List.mem_append.1 hmem with hmem | hmem
  · exact hgrown env' (h.lies env' hmem)
  · exact List.mem_singleton.1 hmem ▸ henv

theorem lies_set (h : g.Sound) (henv : env.Lies σ)
    (hgrown : ∀ env : Environment, env.Lies g.store → env.Lies σ) :
    ∀ env' ∈ g.environments.set k env, env'.Lies σ := by
  intro env' hmem
  rcases List.mem_or_eq_of_mem_set hmem with hmem | rfl
  · exact hgrown env' (h.lies env' hmem)
  · exact henv

/-- Every operation leaves a sound graph sound. -/
theorem apply (h : g.Sound) (op : Operation) : (g.apply op).Sound := by
  cases op with
  | environment =>
    have hnew : (g.store.allocate none).1 < (g.store.allocate none).2.size := by
      rw [Store.size_allocate]
      exact Nat.lt_succ_self _
    exact ⟨h.ordered.allocate nofun,
      h.lies_append (.atGlobal hnew) fun _ henv => henv.allocate none⟩
  | scope parent? =>
    rw [ScopeGraph.apply]
    split
    · next hlt => exact ⟨h.ordered.allocate hlt, fun env henv => (h.lies env henv).allocate parent?⟩
    · exact h
  | push k =>
    refine h.withEnvironment fun env henv => ⟨h.ordered.allocate ?_, ?_⟩
    · rintro _ ⟨⟩
      exact henv.current
    · exact h.lies_set henv.push fun _ henv' => henv'.allocate _
  | pop k =>
    refine h.withEnvironment fun env henv => ⟨h.ordered, ?_⟩
    exact h.lies_set (henv.pop h.ordered) fun _ => id
  | enclosed k i =>
    refine h.withEnvironment fun env henv => ?_
    split
    · next hlt => exact ⟨h.ordered, h.lies_append (.enclosed hlt env) fun _ => id⟩
    · exact h
  | define i x v => exact h.define
  | assign i x v => exact h.assign
  | defineCurrent k x v => exact h.withEnvironment fun env _ => h.define
  | assignCurrent k x v => exact h.withEnvironment fun env _ => h.assign
  | defineGlobal k x v => exact h.withEnvironment fun env _ => h.define

end Sound

theorem sound_build (ops : List Operation) : (build ops).Sound := by
  have hrun (g : ScopeGraph) (h : g.Sound) : (ops.foldl apply g).Sound := by
    induction ops generalizing g with
    | nil => exact h
    | cons op ops ih => exact ih (g.apply op) (h.apply op)
  exact hrun empty .empty

end ScopeGraph

-- ---------------------------------------------------------------------------
-- Reads
-- ---------------------------------------------------------------------------

/-- A run assigns in the store, or fails and changes nothing. -/
theorem Run.assign_apply (x : String) (v : Value) (line : Nat) (m : Machine) :
    Run.assign x v line m = some (match m.store.assign m.env.current x v with
      | some σ => (.ok (), { m with store := σ })
      | none => (.error ⟨.undefinedVariable x, some line⟩, m)) := by
  rw [Run.assign, Attempt.tryStep_apply, Store.assign]
  cases m.store.holder? x m.env.current <;> rfl

/-- What is read in a graph. An assignment succeeds exactly if the name has a value, and changes
what is read of the name from the scopes that mean the same binding by it. A definition changes what
is read of the name from the scopes whose way to it is clear. No other reading changes, and an
assignment that fails changes nothing. An environment always has a scope open; it reads its open
scopes from the current one on, and then the parents of the last. -/
theorem reads_follow_writes (ops : List ScopeGraph.Operation) :
    let g := ScopeGraph.build ops
    (∀ s x v,
      ((g.store.assign s x v).isSome = true ↔ ∃ w, g.store.lookup s x = some w) ∧
      (g.store.assign s x v = none → g.assign s x v = g) ∧
      ∀ σ, g.store.assign s x v = some σ → ∀ t y,
        (y = x ∧ g.store.SameCell x s t → σ.lookup t y = some v) ∧
        (¬ (y = x ∧ g.store.SameCell x s t) → σ.lookup t y = g.store.lookup t y)) ∧
    (∀ m : Machine, m.store = g.store → ∀ x v line,
      (g.store.assign m.env.current x v = none →
        Run.assign x v line m = some (.error ⟨.undefinedVariable x, some line⟩, m)) ∧
      ∀ σ, g.store.assign m.env.current x v = some σ →
        Run.assign x v line m = some (.ok (), { m with store := σ })) ∧
    (∀ s x v, s < g.store.size → ∀ t y,
      (y = x ∧ g.store.Clear x t s → (g.store.define s x v).lookup t y = some v) ∧
      (¬ (y = x ∧ g.store.Clear x t s) →
        (g.store.define s x v).lookup t y = g.store.lookup t y)) ∧
    ∀ env ∈ g.environments, env.scopes ≠ [] ∧
      ∃ bottom outer, env.scopes.getLast? = some bottom ∧
        g.store.Chain bottom (bottom :: outer) ∧
        ∀ x, g.store.lookup env.current x =
          (env.scopes ++ outer).findSome? fun i => g.store.get? i x := by
  intro g
  obtain ⟨hordered, hlies⟩ := ScopeGraph.sound_build ops
  refine ⟨fun s x v => ⟨?_, fun h => ?_, fun σ h t y => ⟨?_, ?_⟩⟩, fun m hm x v line => ⟨?_, ?_⟩,
    fun s x v hs t y => ⟨?_, ?_⟩, fun env henv => ⟨List.cons_ne_nil _ _, ?_⟩⟩
  · rw [Store.isSome_assign, Option.isSome_iff_exists]
  · rw [ScopeGraph.assign, h]
    rfl
  · rintro ⟨rfl, hsame⟩
    exact Store.lookup_assign_of_same hordered h hsame
  · exact Store.lookup_assign_of_other hordered h
  · intro h
    rw [Run.assign_apply, hm, h]
  · intro σ h
    rw [Run.assign_apply, hm, h]
  · rintro ⟨rfl, hclear⟩
    exact hclear.lookup_define hordered hs v
  · exact fun h => Store.lookup_define_of_not_clear hordered h v
  · exact (hlies env henv).search hordered

/-- A block declares `a` and is left, and a call of a function declared in it is still open. What
the call assigns to `a` is read from the block, and not from the global scope, where another `a` is
bound; `b`, which the block gets later, is read from the call. -/
theorem call_writes_left_block :
    let ops : List ScopeGraph.Operation := [.environment, .defineCurrent 0 "a" .nil, .push 0,
      .defineCurrent 0 "a" (.boolean false), .enclosed 0 1, .pop 0, .push 1]
    let g := ScopeGraph.build ops
    g.environments.map Environment.scopes = [[0], [2, 1]] ∧
      ∃ σ, g.store.assign 2 "a" (.boolean true) = some σ ∧
        σ.lookup 1 "a" = some (.boolean true) ∧ σ.lookup 0 "a" = some .nil ∧
        (g.store.define 1 "b" .nil).lookup 2 "b" = some .nil ∧
        (g.store.define 1 "b" .nil).lookup 0 "b" = none := by
  intro ops g
  obtain ⟨hassign, -, hdefine, -⟩ := reads_follow_writes ops
  obtain ⟨hsucceeds, -, hreads⟩ := hassign 2 "a" (.boolean true)
  obtain ⟨σ, hσ⟩ := Option.isSome_iff_exists.1 (hsucceeds.2 ⟨.boolean false, rfl⟩)
  have hcall : g.store.Nearest "a" 2 1 := ⟨.up rfl rfl (.here 1), rfl⟩
  have hblock : g.store.Nearest "a" 1 1 := ⟨.here 1, rfl⟩
  have hglobal : ¬ g.store.SameCell "a" 2 0 := by
    rintro ⟨j, hcall', ⟨hclear, -⟩⟩
    have hj := (ScopeGraph.sound_build ops).ordered.nearest_unique hcall hcall'
    subst hj
    cases hclear with
    | up _ hp => cases hp
  have hfar : ¬ g.store.Clear "b" 0 1 := by
    intro h
    cases h with
    | up _ hp => cases hp
  refine ⟨rfl, σ, hσ, ?_, ?_, ?_, ?_⟩
  · exact (hreads σ hσ 1 "a").1 ⟨rfl, 1, hcall, hblock⟩
  · exact (hreads σ hσ 0 "a").2 fun h => hglobal h.2
  · exact (hdefine 1 "b" .nil (by decide) 2 "b").1 ⟨rfl, .up rfl rfl (.here 1)⟩
  · exact (hdefine 1 "b" .nil (by decide) 0 "b").2 fun h => hfar h.2

end Lox
