/-! The numbers that the bits of a float stand for. -/

namespace Treewalk.Decimal

/-- A magnitude `mantissa * 2 ^ exponent`. The gap to the next smaller float is half the gap to the
next greater one exactly when `narrowBelow` is set. -/
structure Binary where
  mantissa : Nat
  exponent : Int
  narrowBelow : Bool
  deriving DecidableEq, Repr

inductive Reading where
  | nan
  | infinite (negative : Bool)
  | finite (negative : Bool) (magnitude : Binary)
  deriving DecidableEq, Repr

namespace Reading

def ofBits (bits : UInt64) : Reading :=
  let negative := bits >>> 63 == 1
  let exponent := ((bits >>> 52) &&& 0x7FF).toNat
  let fraction := (bits &&& 0xFFFFFFFFFFFFF).toNat
  if exponent == 0x7FF then
    if fraction == 0 then infinite negative else nan
  else if exponent == 0 then
    finite negative ⟨fraction, -1074, false⟩
  else
    finite negative
      ⟨0x10000000000000 + fraction, (exponent : Int) - 1075, fraction == 0 && exponent > 1⟩

def ofFloat (x : Float) : Reading :=
  ofBits x.toBits

end Reading

namespace Binary

/-- The magnitude as a fraction of natural numbers. -/
def numerator (x : Binary) : Nat :=
  x.mantissa * Nat.pow 2 x.exponent.toNat

def denominator (x : Binary) : Nat :=
  Nat.pow 2 (-x.exponent).toNat

def toNat? (x : Binary) : Option Nat :=
  if x.numerator % x.denominator == 0 then some (x.numerator / x.denominator) else none

end Binary
end Treewalk.Decimal
