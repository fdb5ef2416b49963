-- SUMMARY: Numbers as text: how a number is written and how a numeral is read.
import Lox.Number.Basic
import Lox.Number.Shortest

/-!
## Numbers as text

A number is written with the fewest digits that read back as the same number, always positionally
and without a point if it is whole. A numeral has digits, and perhaps a point and more digits; it
is read as the nearest number.
-/

namespace Lox.Number

/-- The digits of `n`, with zeros in front up to `width` characters. -/
def padded (width n : Nat) : List Char :=
  let digits := Nat.toDigits 10 n
  List.replicate (width - digits.length) '0' ++ digits

/-- Positional writing: never an exponent. -/
def Decimal.chars (d : Decimal) : List Char :=
  if 0 ≤ d.exponent then
    Nat.toDigits 10 d.digits ++ List.replicate d.exponent.toNat '0'
  else
    let places := (-d.exponent).toNat
    let unit := Nat.pow 10 places
    Nat.toDigits 10 (d.digits / unit) ++ '.' :: padded places (d.digits % unit)

/-- The text of `m · 2 ^ q`. -/
def magnitude (m : Nat) (q : Int) : List Char :=
  if m = 0 then ['0'] else (shortest m q).chars

/-- The text of a number. Zero has a sign, a number that is none has not. -/
def text (x : Float) : String :=
  match parts x with
  | .nan => "NaN"
  | .infinite negative => if negative then "-inf" else "inf"
  | .finite negative m q =>
    String.ofList (if negative then '-' :: magnitude m q else magnitude m q)


-- ---------------------------------------------------------------------------
-- Numerals
-- ---------------------------------------------------------------------------

/-- A numeral in two parts: the digits before the point and those after it. -/
structure Numeral where
  whole : List Char
  fraction : List Char
  deriving DecidableEq, Repr

/-- Reads `digits` or `digits.digits`, with at least one digit on each side. -/
def Numeral.ofChars? (cs : List Char) : Option Numeral :=
  let whole := cs.takeWhile Char.isDigit
  if whole = [] then
    none
  else
    match cs.dropWhile Char.isDigit with
    | [] => some ⟨whole, []⟩
    | '.' :: fraction =>
      if fraction ≠ [] ∧ fraction.all Char.isDigit then some ⟨whole, fraction⟩ else none
    | _ => none

/-- The value of a string of digits. -/
def digitsValue (cs : List Char) : Nat :=
  cs.foldl (fun n c => 10 * n + (c.toNat - '0'.toNat)) 0

/-- The number nearest to a numeral. -/
def Numeral.value (n : Numeral) : Float :=
  Float.ofScientific (digitsValue (n.whole ++ n.fraction)) true n.fraction.length

/-- The number that a numeral stands for, if `cs` is one. -/
def read? (cs : List Char) : Option Float :=
  (Numeral.ofChars? cs).map Numeral.value

end Lox.Number
