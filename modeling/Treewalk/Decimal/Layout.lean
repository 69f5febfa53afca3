import Treewalk.Text.Bytes
import Treewalk.Decimal.Shortest

/-! How the digits of a number are laid out: positionally, or as one digit, a fraction and a power
of ten. -/

namespace Treewalk.Decimal.Digits

def digitText (digits : List Nat) : Bytes :=
  digits.map fun digit => .ofNat (0x30 + digit)

def zeros (count : Int) : Bytes :=
  List.replicate count.toNat 0x30

/-- Digits with a point among them where it is needed, and zeros to reach it. -/
def positional (d : Digits) : Bytes :=
  let whole := d.digits.take d.point.toNat
  let fraction := d.digits.drop d.point.toNat
  let wholeText :=
    if d.point ≤ 0 then [0x30] else digitText whole ++ zeros (d.point - whole.length)
  let fractionText :=
    if fraction.isEmpty then [] else utf8 '.' ++ zeros (-d.point) ++ digitText fraction
  wholeText ++ fractionText

def leadingPower (d : Digits) : Int :=
  d.point - 1

def scientific (d : Digits) : Bytes :=
  let fraction := d.digits.drop 1
  let fractionText := if fraction.isEmpty then [] else utf8 '.' ++ digitText fraction
  let power := d.leadingPower
  let sign := if power < 0 then utf8 '-' else utf8 '+'
  let pad := if power.natAbs < 10 then [0x30] else []
  digitText (d.digits.take 1) ++ fractionText ++ utf8 'e' ++ sign ++ pad ++ Bytes.ofNat power.natAbs

end Treewalk.Decimal.Digits

namespace Treewalk.Decimal

def signed (negative : Bool) (text : Bytes) : Bytes :=
  if negative then utf8 '-' ++ text else text

end Treewalk.Decimal
