-- SUMMARY: The phases of a run: each piece of code that it runs, and the machine it runs it on.
import Lox.Proofs.Run.Kept

/-!
## Phases

A run of code is made of runs of smaller pieces of code, each on the machine that the pieces before
it left. These are the phases of the run, and the calls that are open in a phase can be counted on
the way to it. The machines on which phases start and end are the moments of the run. They are there
also if the run fails, or if it is cut off.
-/

namespace Lox

/-- The machine that a run leaves when it ends. -/
def Run.left? {α : Type} (x : Run α) (m : Machine) : Option Machine :=
  (x m).map Prod.snd

/-- What a phase runs. -/
inductive Code where
  | eval (e : Expr)
  | evalAll (es : List Expr)
  | call (f : Value) (arguments : List Value) (line : Nat)
  | exec (s : Stmt)
  | execAll (ss : List Stmt)

structure Phase where
  fuel : Nat
  code : Code
  machine : Machine

/-- The part of a piece of code that runs first, on the machine as it is. -/
def Code.first? : Code → Option Code
  | .eval (.assign _ e _) => some (.eval e)
  | .eval (.binary _ left _ _) => some (.eval left)
  | .eval (.logical _ left _ _) => some (.eval left)
  | .eval (.unary _ operand _) => some (.eval operand)
  | .eval (.group inner _) => some (.eval inner)
  | .eval (.call callee _ _) => some (.eval callee)
  | .evalAll (e :: _) => some (.eval e)
  | .exec (.expr e _) => some (.eval e)
  | .exec (.print e _) => some (.eval e)
  | .exec (.var _ e _) => some (.eval e)
  | .exec (.branch condition _ _ _) => some (.eval condition)
  | .exec (.loop condition _ _) => some (.eval condition)
  | .exec (.ret e _) => some (.eval e)
  | .execAll (s :: _) => some (.exec s)
  | _ => none

theorem Code.first?_ne_call (code : Code) {f : Value} {vs : List Value} {line : Nat} :
    code.first? ≠ some (.call f vs line) := by
  unfold first?
  split <;> nofun

namespace Phase

/-- The machine that a phase ends on, if it ends. -/
def end? (c : Phase) : Option Machine :=
  match c.code with
  | .eval e => Run.left? (eval c.fuel e) c.machine
  | .evalAll es => Run.left? (evalAll c.fuel es) c.machine
  | .call f vs line => Run.left? (Lox.call c.fuel f vs line) c.machine
  | .exec s => Run.left? (exec c.fuel s) c.machine
  | .execAll ss => Run.left? (execAll c.fuel ss) c.machine

/-- `Part j c c'`: to run `c` is to run `c'` among others. `j` is one if `c'` is the body of the
function that `c` calls, and zero otherwise. -/
inductive Part : Nat → Phase → Phase → Prop where
  | first {n k k' m} (h : Code.first? k = some k') : Part 0 ⟨n + 1, k, m⟩ ⟨n, k', m⟩
  | right {n op left right line m v m₁} (h : eval n left m = some (.ok v, m₁)) :
      Part 0 ⟨n + 1, .eval (.binary op left right line), m⟩ ⟨n, .eval right, m₁⟩
  | logicalRight {n op left right line m v m₁} (h : eval n left m = some (.ok v, m₁))
      (hop : v.isNil = true ↔ op = .or) :
      Part 0 ⟨n + 1, .eval (.logical op left right line), m⟩ ⟨n, .eval right, m₁⟩
  | arguments {n callee es line m f m₁} (h : eval n callee m = some (.ok f, m₁)) :
      Part 0 ⟨n + 1, .eval (.call callee es line), m⟩ ⟨n, .evalAll es, m₁⟩
  | call {n callee es line m f m₁ vs m₂} (h : eval n callee m = some (.ok f, m₁))
      (h' : evalAll n es m₁ = some (.ok vs, m₂)) :
      Part 0 ⟨n + 1, .eval (.call callee es line), m⟩ ⟨n, .call f vs line, m₂⟩
  | tail {n e es m v m₁} (h : eval n e m = some (.ok v, m₁)) :
      Part 0 ⟨n + 1, .evalAll (e :: es), m⟩ ⟨n, .evalAll es, m₁⟩
  | body {n f vs line m} (hcount : f.arity = vs.length) (hdepth : m.callDepth < m.callLimit) :
      Part 1 ⟨n + 1, .call (.function f) vs line, m⟩
        ⟨n, .execAll f.body, (m.calling f.scope).enter (f.parameters.zip vs)⟩
  | block {n body line m} :
      Part 0 ⟨n + 1, .exec (.block body line), m⟩ ⟨n, .execAll body, m.enter []⟩
  | yes {n condition yes no line m v m₁} (h : eval n condition m = some (.ok v, m₁))
      (hv : v.isTrue = true) :
      Part 0 ⟨n + 1, .exec (.branch condition yes no line), m⟩ ⟨n, .exec yes, m₁⟩
  | no {n condition yes no line m v m₁} (h : eval n condition m = some (.ok v, m₁))
      (hv : v.isTrue = false) :
      Part 0 ⟨n + 1, .exec (.branch condition yes (some no) line), m⟩ ⟨n, .exec no, m₁⟩
  | turn {n condition body line m v m₁} (h : eval n condition m = some (.ok v, m₁))
      (hv : v.isTrue = true) :
      Part 0 ⟨n + 1, .exec (.loop condition body line), m⟩ ⟨n, .exec body, m₁⟩
  | again {n condition body line m v m₁ m₂} (h : eval n condition m = some (.ok v, m₁))
      (hv : v.isTrue = true) (h' : exec n body m₁ = some (.ok .normal, m₂)) :
      Part 0 ⟨n + 1, .exec (.loop condition body line), m⟩
        ⟨n, .exec (.loop condition body line), m₂⟩
  | rest {n s ss m m₁} (h : exec n s m = some (.ok .normal, m₁)) :
      Part 0 ⟨n + 1, .execAll (s :: ss), m⟩ ⟨n, .execAll ss, m₁⟩

/-- `Contains k c c'`: to run `c` is to run `c'` among others, in `k` calls that `c` opens. -/
inductive Contains : Nat → Phase → Phase → Prop where
  | self (c : Phase) : Contains 0 c c
  | part {j k c c' c''} (h : Part j c c') (h' : Contains k c' c'') : Contains (j + k) c c''

/-- The run is at some time on the machine `m`. -/
inductive Passes (c : Phase) : Machine → Prop where
  | start {k c'} (h : Contains k c c') : Passes c c'.machine
  | finish {k c' m} (h : Contains k c c') (hend : c'.end? = some m) : Passes c m

end Phase

-- ---------------------------------------------------------------------------
-- Sessions
-- ---------------------------------------------------------------------------

/-- The machines that programs lead to from `m₀` on, one program after the other, however they end.
What was printed may be taken away in between. -/
inductive Machine.Session (m₀ : Machine) : Machine → Prop where
  | start : Session m₀ m₀
  | run {m m' n program r} (h : Session m₀ m) (hrun : interpret n program m = some (r, m')) :
      Session m₀ m'
  | flush {m} (h : Session m₀ m) : Session m₀ m.flush.2

/-- The machine `m` is met in a session that starts with `m₀`, between its programs or at any time
of a run. -/
def Machine.Meets (m₀ m : Machine) : Prop :=
  ∃ m₁ n program, m₀.Session m₁ ∧ Phase.Passes ⟨n, .execAll program, m₁⟩ m

end Lox
