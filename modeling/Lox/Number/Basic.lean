-- SUMMARY: Numbers as doubles: what their bits stand for, and when a number is a count.

/-!
## Numbers

A number is a double. This module says what the bits of one stand for: a finite number is
`m · 2 ^ q` with a sign. Everything that has to be exact (the text of a number, the count that a
number stands for) is computed on `m` and `q`.
-/

namespace Lox

namespace Number

/-- What the 64 bits of a number stand for. A finite number is `m · 2 ^ q`. -/
inductive Parts where
  | nan
  | infinite (negative : Bool)
  | finite (negative : Bool) (m : Nat) (q : Int)
  deriving DecidableEq, Repr

/-- The sign is the top bit, the exponent the next 11, the fraction the last 52. -/
def Parts.ofBits (bits : Nat) : Parts :=
  let negative := bits / Nat.pow 2 63 % 2 == 1
  let exponent : Nat := bits / Nat.pow 2 52 % Nat.pow 2 11
  let fraction := bits % Nat.pow 2 52
  if exponent = 2047 then
    if fraction = 0 then .infinite negative else .nan
  else if exponent = 0 then
    .finite negative fraction (-1074)
  else
    .finite negative (Nat.pow 2 52 + fraction) (Int.ofNat exponent - 1075)

def parts (x : Float) : Parts :=
  .ofBits x.toBits.toNat


-- ---------------------------------------------------------------------------
-- Counts
-- ---------------------------------------------------------------------------

/-- The largest count: counts are 64-bit words. -/
def maxCount : Nat := Nat.pow 2 64 - 1

/-- The double nearest to `maxCount`. A number up to this bound stands for a count. -/
def countBound : Nat := Nat.pow 2 64

/-- The natural number `m · 2 ^ q`, if it is one. -/
def whole? (m : Nat) (q : Int) : Option Nat :=
  if 0 ≤ q then
    some (m * Nat.pow 2 q.toNat)
  else if m % Nat.pow 2 (-q).toNat = 0 then
    some (m / Nat.pow 2 (-q).toNat)
  else
    none

/-- The count that a number stands for: a whole number from zero (either zero) to `countBound`,
held to `maxCount`. -/
def count? (x : Float) : Option Nat :=
  match parts x with
  | .nan => none
  | .infinite _ => none
  | .finite negative m q =>
    if negative = true ∧ m ≠ 0 then
      none
    else
      match whole? m q with
      | none => none
      | some n => if n ≤ countBound then some (min n maxCount) else none

end Number

end Lox
