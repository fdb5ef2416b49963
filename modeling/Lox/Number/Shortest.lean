-- SUMMARY: The shortest decimal that reads back as a given binary number.

/-!
## Shortest decimals

The numbers that round to `m · 2 ^ q` form an interval around it. The shortest decimal for
`m · 2 ^ q` is a point of that interval on the coarsest grid of powers of ten that has one, and of
two such points on one grid the nearer; of two equally near points it is the upper.

All comparisons are exact. The unit is a quarter of `2 ^ q`, so that the ends of the interval are
whole numbers of units.
-/

namespace Lox.Number

/-- The number `digits · 10 ^ exponent`. -/
structure Decimal where
  digits : Nat
  exponent : Int
  deriving DecidableEq, Repr

/-- The numbers that round to `m · 2 ^ q`, with ends in units of `2 ^ (q - 2)`. -/
structure Interval where
  lower : Nat
  upper : Nat
  /-- A tie goes to the even neighbour, so the ends belong to an even `m`. -/
  closed : Bool
  deriving DecidableEq, Repr

/-- Neighbours are `2 ^ q` away, save below the least `m` of a binade, where the neighbour is
half as far. The least binade has no smaller one below it. -/
def Interval.around (m : Nat) (q : Int) : Interval where
  lower := if m = Nat.pow 2 52 ∧ -1074 < q then 4 * m - 1 else 4 * m - 2
  upper := 4 * m + 2
  closed := m % 2 == 0

/-- Whether `x` lies in the interval whose ends are multiples of `unit`. -/
def Interval.contains (i : Interval) (unit x : Nat) : Bool :=
  if i.closed then
    i.lower * unit ≤ x && x ≤ i.upper * unit
  else
    i.lower * unit < x && x < i.upper * unit

/-- The point of the interval of `m · 2 ^ q` that is a multiple of `10 ^ k` and nearest to it, as
that multiple. Only the two neighbours of `m · 2 ^ q` on the grid can be this point. -/
def nearestOnGrid? (m : Nat) (q k : Int) : Option Nat :=
  let i := Interval.around m q
  let step := Nat.pow 10 k.toNat * Nat.pow 2 (2 - q).toNat
  let unit := Nat.pow 2 (q - 2).toNat * Nat.pow 10 (-k).toNat
  let value := 4 * m * unit
  let below := value / step
  match i.contains unit (below * step), i.contains unit ((below + 1) * step) with
  | true, true => some (if 2 * (value % step) < step then below else below + 1)
  | true, false => some below
  | false, true => some (below + 1)
  | false, false => none

/-- On the grid of `10 ^ min q 0` the number is itself a point. -/
def exactDecimal (m : Nat) (q : Int) : Decimal :=
  ⟨m * Nat.pow 2 q.toNat * Nat.pow 5 (-q).toNat, min q 0⟩

/-- Search the grids `10 ^ k, 10 ^ (k - 1), …`, `steps` of them, for a point of the interval. -/
def searchGrids (m : Nat) (q : Int) : Nat → Int → Decimal
  | 0, _ => exactDecimal m q
  | steps + 1, k =>
    match nearestOnGrid? m q k with
    | some d => ⟨d, k⟩
    | none => searchGrids m q steps (k - 1)

/-- An exponent `k` with `m · 2 ^ q ≤ 10 ^ k`, from `8 ≤ 10 ≤ 16`. -/
def coarsestGrid (m : Nat) (q : Int) : Int :=
  let l := m.log2 + q
  if 0 ≤ l then l / 3 + 1 else 1 - (-l) / 4

/-- The shortest decimal that reads back as `m · 2 ^ q`, for positive `m`. -/
def shortest (m : Nat) (q : Int) : Decimal :=
  let k := coarsestGrid m q
  searchGrids m q (k - min q 0).toNat k

end Lox.Number
