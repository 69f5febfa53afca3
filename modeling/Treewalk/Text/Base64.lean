import Treewalk.Text.Bytes

/-! Bytes written with 64 characters, three bytes in four of them. -/

namespace Treewalk.Text.Base64

def bits? (c : Char) : Option Nat :=
  if 'A' ≤ c && c ≤ 'Z' then some (c.toNat - 'A'.toNat)
  else if 'a' ≤ c && c ≤ 'z' then some (c.toNat - 'a'.toNat + 26)
  else if '0' ≤ c && c ≤ '9' then some (c.toNat - '0'.toNat + 52)
  else if c == '+' then some 62
  else if c == '/' then some 63
  else none

/-- The last group is filled up with equals signs; bits left over do not count. -/
def groups? : List Char → Option Bytes
  | [] => some []
  | [a, b, '=', '='] => do
    let a ← bits? a
    let b ← bits? b
    return [.ofNat (4 * a + b / 16)]
  | [a, b, c, '='] => do
    let a ← bits? a
    let b ← bits? b
    let c ← bits? c
    return [.ofNat (4 * a + b / 16), .ofNat (b % 16 * 16 + c / 4)]
  | a :: b :: c :: d :: rest => do
    let a ← bits? a
    let b ← bits? b
    let c ← bits? c
    let d ← bits? d
    let more ← groups? rest
    return .ofNat (4 * a + b / 16) :: .ofNat (b % 16 * 16 + c / 4) :: .ofNat (c % 4 * 64 + d)
      :: more
  | _ => none

/-- The bytes that a text stands for. It may be broken into lines anywhere. -/
def decode? (text : List Char) : Option Bytes :=
  groups? (text.filter fun c => c != '\n' && c != '\r')

end Treewalk.Text.Base64
