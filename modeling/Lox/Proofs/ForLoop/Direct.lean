-- SUMMARY: What a `for` means, and how its tree comes to the same with more scopes.
import Lox.Proofs.Run.Fuel

/-!
## Loops with clauses

A `for` runs its initial statement once, in a scope of its own. As long as the condition is true it
runs the body and then the update, both in that scope. A return or an error ends all of it.

The tree of a `for` has the body and the update in a block, so that every turn opens a scope if
there is an update. Run with those scopes, the loop does what its tree does (`exec_tree`).
-/

namespace Lox

open Attempt

/-- The clauses of a `for`, as far as they are given, and its body. -/
structure ForLoop where
  initial : Option Stmt
  condition : Option Expr
  update : Option Expr
  body : Stmt

/-- One after the other, unless the first one returns. -/
def Run.followedBy (x y : Run Completion) : Run Completion := do
  match ← x with
  | .normal => y
  | .returned v => return .returned v

/-- Turns as long as the loop goes on, up to the first one that returns. -/
def turns (goesOn : Nat → Run Bool) (turn : Nat → Run Completion) : Nat → Run Completion
  | 0 => Attempt.cutOff
  | n + 1 => do
    if ← goesOn n then
      Run.followedBy (turn n) (turns goesOn turn n)
    else
      return .normal

namespace ForLoop

/-- A loop without a condition goes on. -/
def goesOn (l : ForLoop) (n : Nat) : Run Bool :=
  match l.condition with
  | none => return true
  | some e => do return (← eval n e).isTrue

/-- The value of the update does not matter. -/
def runUpdate (l : ForLoop) (n : Nat) : Run Completion :=
  match l.update with
  | none => return .normal
  | some e => do
    let _ ← eval n e
    return .normal

/-- The body and then the update, in the current scope. -/
def turn (l : ForLoop) (n : Nat) : Run Completion :=
  Run.followedBy (exec n l.body) (l.runUpdate n)

/-- The initial statement, if there is one, in a new scope together with all the rest. -/
def start (l : ForLoop) (n : Nat) (rest : Run Completion) : Run Completion :=
  match l.initial with
  | none => rest
  | some s => Run.inScope [] (Run.followedBy (exec n s) rest)

/-- The loop as it is meant. -/
def run (l : ForLoop) (n : Nat) : Run Completion :=
  l.start n (turns l.goesOn l.turn n)

/-- The tree of the loop. A condition that is not given is a literal, which has a line. -/
def tree (l : ForLoop) (line conditionLine : Nat) : Stmt :=
  .forLoop l.initial (l.condition.getD (.literal (.boolean true) conditionLine)) l.update l.body
    line

/-- A turn of the tree. -/
def turnInBlock (l : ForLoop) (n : Nat) : Run Completion :=
  if l.update.isSome then Run.inScope [] (l.turn n) else l.turn n

def runInBlocks (l : ForLoop) (n : Nat) : Run Completion :=
  l.start n (turns l.goesOn l.turnInBlock n)

end ForLoop

variable {n k line conditionLine : Nat} {m : Machine} {o : Except RuntimeError Completion × Machine}
  {x x' y y' : Run Completion} {goesOn goesOn' : Nat → Run Bool} {turn turn' : Nat → Run Completion}

-- ---------------------------------------------------------------------------
-- More fuel
-- ---------------------------------------------------------------------------

theorem Run.followedBy_approximates (hx : Approximates x x') (hy : Approximates y y') :
    Approximates (followedBy x y) (followedBy x' y') := by
  refine .bind hx fun c => ?_
  cases c with
  | normal => exact hy
  | returned v => exact .refl _

theorem Run.followedBy_normal (x : Run Completion) : followedBy x (pure .normal) = x := by
  funext m
  rw [followedBy, bind_apply]
  match x m with
  | none | some (.error _, _) | some (.ok .normal, _) | some (.ok (.returned _), _) => rfl

theorem turns_approximates (hgo : ∀ n, Approximates (goesOn n) (goesOn' (n + k)))
    (hturn : ∀ n, Approximates (turn n) (turn' (n + k))) (n : Nat) :
    Approximates (turns goesOn turn n) (turns goesOn' turn' (n + k)) := by
  induction n with
  | zero => exact .cutOff _
  | succ n ih =>
    rw [Nat.succ_add]
    refine .bind (hgo n) fun b => ?_
    cases b with
    | true => exact Run.followedBy_approximates (hturn n) ih
    | false => exact .refl _

theorem exec_approximates (h : n ≤ k) (s : Stmt) : Approximates (exec n s) (exec k s) :=
  (runsApproximate h).exec s

theorem isTrue_approximates (h : n ≤ k) (e : Expr) :
    Approximates (do return (← eval n e).isTrue) (do return (← eval k e).isTrue) :=
  .bind ((runsApproximate h).eval e) fun _ => .refl _

-- ---------------------------------------------------------------------------
-- Loops and blocks
-- ---------------------------------------------------------------------------

/-- A loop in a tree takes turns. -/
theorem exec_loop (condition : Expr) (body : Stmt) (line n : Nat) :
    exec n (.loop condition body line) =
      turns (fun n => do return (← eval n condition).isTrue) (fun n => exec n body) n := by
  induction n with
  | zero => rfl
  | succ n ih =>
    funext m
    rw [exec, turns, bind_apply, bind_apply, bind_apply]
    match eval n condition m with
    | none | some (.error _, _) => rfl
    | some (.ok v, m') =>
      simp only [pure_apply]
      rw [← ih]
      rfl

theorem exec_block_two (s t : Stmt) (line n : Nat) :
    exec (n + 4) (.block [s, t] line) =
      Run.inScope [] (Run.followedBy (exec (n + 2) s) (exec (n + 1) t)) := by
  rw [← Run.followedBy_normal (exec (n + 1) t)]
  rfl

namespace ForLoop

variable (l : ForLoop)

theorem goesOn_approximates (h : n ≤ k) : Approximates (l.goesOn n) (l.goesOn k) := by
  unfold goesOn
  split
  · exact .refl _
  · exact isTrue_approximates h _

theorem runUpdate_approximates (h : n ≤ k) : Approximates (l.runUpdate n) (l.runUpdate k) := by
  unfold runUpdate
  split
  · exact .refl _
  · exact .bind ((runsApproximate h).eval _) fun _ => .refl _

theorem turn_approximates (h : n ≤ k) : Approximates (l.turn n) (l.turn k) :=
  Run.followedBy_approximates (exec_approximates h _) (l.runUpdate_approximates h)

/-- The condition in the tree. -/
theorem goesOn_tree (conditionLine n : Nat) :
    let condition := l.condition.getD (.literal (.boolean true) conditionLine)
    Approximates (do return (← eval n condition).isTrue) (l.goesOn n) ∧
      Approximates (l.goesOn n) (do return (← eval (n + 1) condition).isTrue) := by
  unfold goesOn
  cases l.condition with
  | none =>
    refine ⟨?_, .refl _⟩
    cases n with
    | zero => exact .cutOff _
    | succ n => exact .refl _
  | some e => exact ⟨.refl _, isTrue_approximates (Nat.le_succ n) e⟩

/-- The body in the tree. -/
def turnTree : Stmt :=
  match l.update with
  | some e => .block [l.body, .ofExpr e] l.body.line
  | none => l.body

theorem exec_turnTree (n : Nat) :
    Approximates (exec n l.turnTree) (l.turnInBlock (n + 2)) ∧
      Approximates (l.turnInBlock n) (exec (n + 4) l.turnTree) := by
  unfold turnTree turnInBlock turn runUpdate
  cases l.update with
  | none =>
    simp only [Option.isSome_none, Bool.false_eq_true, if_false, Run.followedBy_normal]
    exact ⟨exec_approximates (by omega) _, exec_approximates (by omega) _⟩
  | some e =>
    have hblock : exec (n + 4) (.block [l.body, .ofExpr e] l.body.line) =
        Run.inScope [] (Run.followedBy (exec (n + 2) l.body) (exec (n + 1) (.ofExpr e))) :=
      exec_block_two _ _ _ n
    simp only [Option.isSome_some, if_true]
    constructor
    · refine (exec_approximates (Nat.le_add_right n 4) _).trans ?_
      rw [hblock]
      refine Run.inScope_approximates [] (Run.followedBy_approximates (.refl _) ?_)
      exact .bind ((runsApproximate (by omega)).eval e) fun _ => .refl _
    · rw [hblock]
      exact Run.inScope_approximates []
        (Run.followedBy_approximates (exec_approximates (by omega) _) (.refl _))

/-- The loop in the tree. -/
def loopTree (line conditionLine : Nat) : Stmt :=
  .loop (l.condition.getD (.literal (.boolean true) conditionLine)) l.turnTree line

theorem exec_loopTree (line conditionLine n : Nat) :
    Approximates (exec n (l.loopTree line conditionLine))
        (turns l.goesOn l.turnInBlock (n + 2)) ∧
      Approximates (turns l.goesOn l.turnInBlock n)
        (exec (n + 4) (l.loopTree line conditionLine)) := by
  rw [loopTree, exec_loop, exec_loop]
  constructor
  · refine turns_approximates (fun n => ?_) (fun n => (l.exec_turnTree n).1) n
    exact (l.goesOn_tree conditionLine n).1.trans (l.goesOn_approximates (Nat.le_add_right n 2))
  · refine turns_approximates (fun n => ?_) (fun n => (l.exec_turnTree n).2) n
    exact (l.goesOn_tree conditionLine n).2.trans (isTrue_approximates (by omega) _)

theorem tree_eq (line conditionLine : Nat) :
    l.tree line conditionLine =
      match l.initial with
      | some s => .block [s, l.loopTree line conditionLine] line
      | none => l.loopTree line conditionLine := by
  unfold tree loopTree turnTree Stmt.forLoop
  cases l.update <;> rfl

theorem turns_more (h : n ≤ k) :
    Approximates (turns l.goesOn l.turnInBlock n) (turns l.goesOn l.turnInBlock k) := by
  obtain ⟨d, rfl⟩ := Nat.exists_eq_add_of_le h
  refine turns_approximates (fun n => l.goesOn_approximates (Nat.le_add_right n d)) (fun n => ?_) n
  unfold turnInBlock
  split
  · exact Run.inScope_approximates [] (l.turn_approximates (Nat.le_add_right n d))
  · exact l.turn_approximates (Nat.le_add_right n d)

/-- The tree and the loop with a scope around every turn do the same, with some more fuel. -/
theorem exec_tree (line conditionLine n : Nat) :
    Approximates (exec n (l.tree line conditionLine)) (l.runInBlocks (n + 4)) ∧
      Approximates (l.runInBlocks n) (exec (n + 7) (l.tree line conditionLine)) := by
  rw [tree_eq]
  unfold runInBlocks start
  cases l.initial with
  | none =>
    obtain ⟨hforward, hback⟩ := l.exec_loopTree line conditionLine n
    exact ⟨hforward.trans (l.turns_more (by omega)), hback.trans (exec_approximates (by omega) _)⟩
  | some s =>
    have hblock (n : Nat) : exec (n + 4) (.block [s, l.loopTree line conditionLine] line) =
        Run.inScope [] (Run.followedBy (exec (n + 2) s)
          (exec (n + 1) (l.loopTree line conditionLine))) :=
      exec_block_two _ _ _ n
    constructor
    · refine (exec_approximates (Nat.le_add_right n 4) _).trans ?_
      dsimp only
      rw [hblock]
      refine Run.inScope_approximates [] (Run.followedBy_approximates ?_ ?_)
      · exact exec_approximates (by omega) s
      · exact (l.exec_loopTree line conditionLine (n + 1)).1.trans (l.turns_more (by omega))
    · dsimp only
      rw [hblock (n + 3)]
      refine Run.inScope_approximates [] (Run.followedBy_approximates ?_ ?_)
      · exact exec_approximates (by omega) s
      · exact (l.exec_loopTree line conditionLine n).2

end ForLoop

end Lox
