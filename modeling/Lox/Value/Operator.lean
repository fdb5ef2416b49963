-- SUMMARY: What the operators do with values.
import Lox.Number.Basic
import Lox.Value.Error

/-!
## Operators

Arithmetic and order are for numbers. Besides, a plus sign joins texts if one of its operands is a
string, a minus sign takes characters off the end of a string, and a star repeats a string.
-/

namespace Lox

-- ---------------------------------------------------------------------------
-- Strings
-- ---------------------------------------------------------------------------

/-- The count that a number stands for, or the fault that it stands for none. -/
def countOf (x : Float) : Except Fault Nat :=
  match Number.count? x with
  | some n => .ok n
  | none => .error (.invalidCount x)

/-- `s` without its last `count` characters. -/
def dropEnd (s : String) (count : Nat) : Except Fault String :=
  if s.length < count then
    .error (.stringTooShort s.length count)
  else
    .ok (String.ofList (s.toList.take (s.length - count)))

/-- The bytes that a repeated string may have. -/
def repeatLimit : Nat := Nat.pow 2 28

/-- `s` written `count` times. -/
def repeated (s : String) (count : Nat) : String :=
  if s.isEmpty then "" else count.repeat (fun t => t ++ s) ""

def repeatString (s : String) (count : Nat) : Except Fault String :=
  if s.utf8ByteSize * count ≤ repeatLimit then
    .ok (repeated s count)
  else
    .error (.stringTooLong s.utf8ByteSize count repeatLimit)


-- ---------------------------------------------------------------------------
-- Binary operators
-- ---------------------------------------------------------------------------

namespace Value

def add : Value → Value → Except Fault Value
  | number x, number y => .ok (number (x + y))
  | string s, w => .ok (string (s ++ w.text))
  | v, string t => .ok (string (v.text ++ t))
  | v, w => .error (.binaryOperands .add v.type w.type)

def subtract : Value → Value → Except Fault Value
  | number x, number y => .ok (number (x - y))
  | string s, number x => do return string (← dropEnd s (← countOf x))
  | v, w => .error (.binaryOperands .sub v.type w.type)

def multiply : Value → Value → Except Fault Value
  | number x, number y => .ok (number (x * y))
  | string s, number x => do return string (← repeatString s (← countOf x))
  | v, w => .error (.binaryOperands .mul v.type w.type)

/-- Neither zero divides. -/
def divide : Value → Value → Except Fault Value
  | number x, number y => if y == 0 then .error .divisionByZero else .ok (number (x / y))
  | v, w => .error (.binaryOperands .div v.type w.type)

/-- Compares numbers. No order holds between a number and one that is none. -/
def compare (op : BinaryOp) (holds : Float → Float → Bool) : Value → Value → Except Fault Value
  | number x, number y => .ok (boolean (holds x y))
  | v, w => .error (.binaryOperands op v.type w.type)

end Value

/-- The value of a binary operator. -/
def BinaryOp.apply (op : BinaryOp) (v w : Value) : Except Fault Value :=
  match op with
  | add => v.add w
  | sub => v.subtract w
  | mul => v.multiply w
  | div => v.divide w
  | less => Value.compare op (fun x y => x < y) v w
  | lessEqual => Value.compare op (fun x y => x ≤ y) v w
  | greater => Value.compare op (fun x y => y < x) v w
  | greaterEqual => Value.compare op (fun x y => y ≤ x) v w
  | equal => .ok (.boolean (v.equal w))
  | notEqual => .ok (.boolean !(v.equal w))

/-- The value of a unary operator. -/
def UnaryOp.apply : UnaryOp → Value → Except Fault Value
  | not, .boolean b => .ok (.boolean !b)
  | neg, .number x => .ok (.number (-x))
  | op, v => .error (.unaryOperand op v.type)

end Lox
