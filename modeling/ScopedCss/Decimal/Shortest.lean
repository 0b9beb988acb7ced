/-
The shortest decimal that reads back as a given binary floating-point number, found in exact
arithmetic: on grids of one, two, … seventeen digits the two neighbours of the number are tried, and
the first grid with one that rounds to the number wins.
-/
namespace ScopedCss

/-- A decimal number `digits · 10 ^ exponent`. -/
structure Decimal where
  digits : Nat
  exponent : Int
deriving DecidableEq, Repr

/-- A positive binary number `significand · 2 ^ exponent` with at most 53 significant bits. -/
structure Binary where
  significand : Nat
  exponent : Int
deriving DecidableEq, Repr

namespace Binary

/-- The exponent of the smallest numbers. -/
def leastExponent : Int := -1074

/-- The smallest significand of 53 bits. -/
def leastNormal : Nat := 0x10000000000000

/-- A power with an integer exponent, as a fraction. -/
def power (base : Nat) (e : Int) : Nat × Nat :=
  if e < 0 then (1, base.pow e.natAbs) else (base.pow e.natAbs, 1)

/-- Compares `a · 2 ^ p` with `b · 10 ^ e`. -/
def compareScaled (a : Nat) (p : Int) (b : Nat) (e : Int) : Ordering :=
  let (tn, td) := power 2 p
  let (dn, dd) := power 10 e
  compare (a * tn * dd) (b * dn * td)

/-- Whether the next smaller number is only half as far as the next larger one. -/
def isNarrowBelow (x : Binary) : Bool :=
  x.significand = leastNormal && leastExponent < x.exponent

/-- Whether `b · 10 ^ e` rounds to `x`. The ends of the interval count if the significand is
even. -/
def isReadBack (x : Binary) (b : Nat) (e : Int) : Bool :=
  let low := 4 * x.significand - if x.isNarrowBelow then 1 else 2
  let high := 4 * x.significand + 2
  let fromLow := compareScaled low (x.exponent - 2) b e
  let fromHigh := compareScaled high (x.exponent - 2) b e
  if x.significand % 2 = 0 then fromLow != .gt && fromHigh != .lt
  else fromLow == .lt && fromHigh == .gt

/-- The integral part of `x / 10 ^ e`. -/
def quotient (x : Binary) (e : Int) : Nat :=
  let (tn, td) := power 2 x.exponent
  let (dn, dd) := power 10 e
  (x.significand * tn * dd) / (dn * td)

/-- The exponent of the first digit of `x`. -/
def magnitude (x : Binary) : Int :=
  let whole := x.quotient 0
  if whole ≠ 0 then (Nat.toDigits 10 whole).length - 1
  else
    match (List.range 400).find? fun j : Nat => x.quotient (-(j : Int)) ≠ 0 with
    | some j => -(j : Int)
    | none => 0

/-- Of the neighbours `d` and `d + 1` of `x` on the grid of `10 ^ e`, the one that reads back. Of
two the nearer is taken, and the even one if they are equally near. -/
def candidate (x : Binary) (e : Int) : Option Nat :=
  let d := x.quotient e
  match x.isReadBack d e, x.isReadBack (d + 1) e with
  | true, true =>
    match compareScaled (2 * x.significand) x.exponent (2 * d + 1) e with
    | .lt => some d
    | .gt => some (d + 1)
    | .eq => some (if d % 2 = 0 then d else d + 1)
  | true, false => some d
  | false, true => some (d + 1)
  | false, false => none

/-- The shortest decimal that reads back as `x`. Seventeen digits always suffice. -/
def shortest (x : Binary) : Decimal :=
  let top := x.magnitude
  ((List.range 17).findSome? fun n : Nat =>
    let e := top - (n : Int)
    (x.candidate e).map (⟨·, e⟩)).getD ⟨x.quotient (top - 16), top - 16⟩

end Binary

end ScopedCss
