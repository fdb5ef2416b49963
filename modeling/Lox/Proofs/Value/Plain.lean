-- SUMMARY: Operators neither make functions nor speak of variables.
import Lox.Value.Operator

/-!
## Plain results

The value of an operator is no function, and its fault is not about a variable. So functions come
from declarations only, and variables are missed only where they are read or assigned.
-/

namespace Lox

/-- A fault that is not about a variable. -/
def Fault.Plain (fault : Fault) : Prop :=
  ∀ name, fault ≠ .undefinedVariable name

/-- A value that is no function. -/
def Value.Plain (v : Value) : Prop :=
  v.type ≠ .function

def PlainResult : Except Fault Value → Prop
  | .ok v => v.Plain
  | .error fault => fault.Plain

theorem Value.plain_ofLiteral (l : Literal) : (Value.ofLiteral l).Plain := by
  cases l <;> simp [Value.Plain, Value.ofLiteral, Value.type]

-- ---------------------------------------------------------------------------
-- Strings
-- ---------------------------------------------------------------------------

theorem PlainResult.bind {α : Type} {x : Except Fault α} {f : α → Except Fault Value}
    (hx : ∀ fault, x = .error fault → fault.Plain) (hf : ∀ a, PlainResult (f a)) :
    PlainResult (x >>= f) := by
  cases x with
  | ok a => exact hf a
  | error fault => exact hx fault rfl

theorem countOf_error {x : Float} {fault : Fault} (h : countOf x = .error fault) : fault.Plain := by
  unfold countOf at h
  split at h <;> cases h
  rintro name ⟨⟩

theorem dropEnd_error {s : String} {count : Nat} {fault : Fault}
    (h : dropEnd s count = .error fault) : fault.Plain := by
  unfold dropEnd at h
  split at h <;> cases h
  rintro name ⟨⟩

theorem repeatString_error {s : String} {count : Nat} {fault : Fault}
    (h : repeatString s count = .error fault) : fault.Plain := by
  unfold repeatString at h
  split at h <;> cases h
  rintro name ⟨⟩


-- ---------------------------------------------------------------------------
-- Operators
-- ---------------------------------------------------------------------------

namespace Value

theorem plain_string (s : String) : (string s).Plain := by
  rintro ⟨⟩

theorem plain_add (v w : Value) : PlainResult (v.add w) := by
  cases v <;> cases w <;> simp [add, PlainResult, Value.Plain, Fault.Plain, type]

theorem plain_subtract (v w : Value) : PlainResult (v.subtract w) := by
  unfold subtract
  split
  · simp [PlainResult, Value.Plain, type]
  · exact .bind (fun _ => countOf_error) fun _ => .bind (fun _ => dropEnd_error) fun _ =>
      plain_string _
  · simp [PlainResult, Fault.Plain]

theorem plain_multiply (v w : Value) : PlainResult (v.multiply w) := by
  unfold multiply
  split
  · simp [PlainResult, Value.Plain, type]
  · exact .bind (fun _ => countOf_error) fun _ => .bind (fun _ => repeatString_error) fun _ =>
      plain_string _
  · simp [PlainResult, Fault.Plain]

theorem plain_divide (v w : Value) : PlainResult (v.divide w) := by
  unfold divide
  split
  · split <;> simp [PlainResult, Value.Plain, Fault.Plain, type]
  · simp [PlainResult, Fault.Plain]

theorem plain_compare (op : BinaryOp) (holds : Float → Float → Bool) (v w : Value) :
    PlainResult (v.compare op holds w) := by
  unfold compare
  split
  · simp [PlainResult, Value.Plain, type]
  · simp [PlainResult, Fault.Plain]

end Value

theorem BinaryOp.plain_apply (op : BinaryOp) (v w : Value) : PlainResult (op.apply v w) := by
  cases op with
  | add => exact v.plain_add w
  | sub => exact v.plain_subtract w
  | mul => exact v.plain_multiply w
  | div => exact v.plain_divide w
  | less | lessEqual | greater | greaterEqual => exact Value.plain_compare _ _ v w
  | equal | notEqual => rintro ⟨⟩

theorem UnaryOp.plain_apply (op : UnaryOp) (v : Value) : PlainResult (op.apply v) := by
  unfold UnaryOp.apply
  split
  · rintro ⟨⟩
  · rintro ⟨⟩
  · rintro name ⟨⟩

end Lox
