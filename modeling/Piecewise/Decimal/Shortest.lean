import Piecewise.Decimal.Binary

/-!
# The shortest decimal that reads back

A float stands for the interval of reals that round to it. Its shortest decimal is found on
decimal grids of one digit, two digits and so on: on each grid only the two neighbours of the
float can lie in the interval when any point of the grid does. The first grid with a neighbour in
the interval decides; of two neighbours the nearer is taken, and at an exact tie the upper one.
-/

namespace Piecewise.Decimal

/-- The number `digits * 10 ^ exponent`. -/
structure Numeral where
  digits : Nat
  exponent : Int
  deriving DecidableEq

/-- The magnitude as a fraction of the grid step `10 ^ step`: numerator and denominator. -/
def Binary.over (x : Binary) (step : Int) : Nat × Nat :=
  (x.mantissa * Nat.pow 2 x.exponent.toNat * Nat.pow 10 (-step).toNat,
   Nat.pow 2 (-x.exponent).toNat * Nat.pow 10 step.toNat)

/-- Whether the magnitude is below `10 ^ step`. -/
def Binary.isBelow (x : Binary) (step : Int) : Bool :=
  let (numerator, denominator) := x.over step
  numerator < denominator

/-- Whether `digits * 10 ^ step` lies among the reals that round to the magnitude. The interval
reaches half-way to either neighbour, its ends included exactly when the mantissa is even. -/
def Binary.readsBack (x : Binary) (step : Int) (digits : Nat) : Bool :=
  let (numerator, denominator) := { x with mantissa := 1 }.over step
  let low := (4 * x.mantissa - (if x.narrowBelow then 1 else 2)) * numerator
  let high := (4 * x.mantissa + 2) * numerator
  let point := 4 * digits * denominator
  if x.mantissa % 2 = 0 then low ≤ point && point ≤ high else low < point && point < high

/-- The neighbour of the magnitude on the grid of `10 ^ step` that reads back, if one does. -/
def Binary.onGrid? (x : Binary) (step : Int) : Option Numeral :=
  let (numerator, denominator) := x.over step
  let below := numerator / denominator
  match x.readsBack step below, x.readsBack step (below + 1) with
  | true, true =>
    if 2 * numerator < (2 * below + 1) * denominator then some ⟨below, step⟩
    else some ⟨below + 1, step⟩
  | true, false => some ⟨below, step⟩
  | false, true => some ⟨below + 1, step⟩
  | false, false => none

/-- The exact value, written with as many digits as it has. -/
def Binary.exact (x : Binary) : Numeral :=
  if x.exponent < 0 then ⟨x.mantissa * Nat.pow 5 (-x.exponent).toNat, x.exponent⟩
  else ⟨x.mantissa * Nat.pow 2 x.exponent.toNat, 0⟩

/-- The least exponent of ten whose power is above a magnitude that is not zero. The binary length
gives it to within one step: `1233 / 4096` is just below the decimal logarithm of two. -/
def Binary.scale (x : Binary) : Int :=
  let estimate := (x.exponent + x.mantissa.log2) * 1233 / 4096 - 1
  ((List.range 4).map fun (i : Nat) => estimate + (i : Int)).find? x.isBelow
    |>.getD (estimate + 4)

/-- The shortest decimal that reads back to a magnitude that is not zero. Seventeen digits always
suffice; past them the exact value stands. -/
def Binary.shortest (x : Binary) : Numeral :=
  let top := x.scale
  ((List.range 17).findSome? fun (n : Nat) => x.onGrid? (top - (n + 1 : Nat))).getD x.exact

end Piecewise.Decimal
