import Treewalk.Decimal.Binary

/-! The fewest decimal digits that read back as the same float. The reals that round to a float form
an interval around it; among the decimals of that interval with the fewest digits the one nearest
to the float is chosen, and of two equally near ones the even one. All comparisons are exact. -/

namespace Treewalk.Decimal

/-- The number `0.d₁d₂… * 10 ^ point`. No digit is the empty sum, zero. -/
structure Digits where
  digits : List Nat
  point : Int
  deriving DecidableEq, Repr

def digitsOf (n : Nat) : List Nat :=
  if n = 0 then [] else (Nat.toDigits 10 n).map fun c => c.toNat - 0x30

def dropTrailingZeros (digits : List Nat) : List Nat :=
  (digits.reverse.dropWhile (· == 0)).reverse

def Digits.ofScaled (n : Nat) (exponent : Int) : Digits :=
  ⟨dropTrailingZeros (digitsOf n), (digitsOf n).length + exponent⟩

namespace Binary

/-- Compares `n * 10 ^ exponent` with `quarters / 4` of the unit in the last place. -/
def compareScaled (x : Binary) (n : Nat) (exponent : Int) (quarters : Nat) : Ordering :=
  let binary := x.exponent - 2
  compare (n * Nat.pow 10 exponent.toNat * Nat.pow 2 (-binary).toNat)
    (quarters * Nat.pow 2 binary.toNat * Nat.pow 10 (-exponent).toNat)

/-- Does `n * 10 ^ exponent` round to `x`? The ends of the interval belong to the float with the
even mantissa. -/
def readsBack (x : Binary) (n : Nat) (exponent : Int) : Bool :=
  let below := if x.narrowBelow then 4 * x.mantissa - 1 else 4 * x.mantissa - 2
  let above := 4 * x.mantissa + 2
  let even := x.mantissa % 2 == 0
  let low := x.compareScaled n exponent below
  let high := x.compareScaled n exponent above
  (low == .gt || (even && low == .eq)) && (high == .lt || (even && high == .eq))

/-- The least `k` with `x < 10 ^ k`, for a positive `x`. -/
def scale (x : Binary) : Int :=
  let whole := x.numerator / x.denominator
  if whole = 0 then 1 - (digitsOf ((x.denominator - 1) / x.numerator)).length
  else (digitsOf whole).length

/-- The decimal on the grid `10 ^ exponent` that reads back, if there is one. -/
def onGrid (x : Binary) (exponent : Int) : Option Nat :=
  let numerator := x.numerator * Nat.pow 10 (-exponent).toNat
  let denominator := x.denominator * Nat.pow 10 exponent.toNat
  let lower := numerator / denominator
  match x.readsBack lower exponent, x.readsBack (lower + 1) exponent with
  | false, false => none
  | true, false => some lower
  | false, true => some (lower + 1)
  | true, true =>
    match compare (2 * numerator) ((2 * lower + 1) * denominator) with
    | .lt => some lower
    | .gt => some (lower + 1)
    | .eq => some (if lower % 2 == 0 then lower else lower + 1)

/-- All the digits of `x`, which is a finite decimal because a power of two divides a power of
ten. -/
def exactDigits (x : Binary) : Digits :=
  .ofScaled (x.numerator * Nat.pow 5 (-x.exponent).toNat) (-(-x.exponent).toNat)

/-- Tries one digit, two digits and so on; seventeen always suffice. -/
def shortest (x : Binary) : Digits :=
  if x.mantissa = 0 then ⟨[], 0⟩
  else
    let top := x.scale
    let found := (List.range 17).findSome? fun (extra : Nat) =>
      let exponent := top - (extra + 1)
      (x.onGrid exponent).map fun n => Digits.ofScaled n exponent
    found.getD x.exactDigits

end Binary
end Treewalk.Decimal
