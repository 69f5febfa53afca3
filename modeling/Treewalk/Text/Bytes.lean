/-! Byte strings. Sources, names, values and messages are sequences of bytes: most of them
hold text, but nothing promises that they do. -/

namespace Treewalk

abbrev Bytes := List UInt8

def utf8 (c : Char) : Bytes :=
  let n := c.toNat
  if n < 0x80 then
    [.ofNat n]
  else if n < 0x800 then
    [.ofNat (0xC0 + n / 0x40), .ofNat (0x80 + n % 0x40)]
  else if n < 0x10000 then
    [.ofNat (0xE0 + n / 0x1000), .ofNat (0x80 + n / 0x40 % 0x40), .ofNat (0x80 + n % 0x40)]
  else
    [.ofNat (0xF0 + n / 0x40000), .ofNat (0x80 + n / 0x1000 % 0x40),
      .ofNat (0x80 + n / 0x40 % 0x40), .ofNat (0x80 + n % 0x40)]

namespace Bytes

def ofString (text : String) : Bytes :=
  text.toList.flatMap utf8

def ofNat (n : Nat) : Bytes :=
  (Nat.toDigits 10 n).flatMap utf8

def ofInt : Int → Bytes
  | .ofNat n => ofNat n
  | .negSucc n => utf8 '-' ++ ofNat (n + 1)

def newline : Bytes := [0x0A]

def joinWith (separator : Bytes) : List Bytes → Bytes
  | [] => []
  | [part] => part
  | part :: rest => part ++ separator ++ joinWith separator rest

/-- The text without the longest run of `dropped` bytes at its end. -/
def trimEnd (dropped : List UInt8) (text : Bytes) : Bytes :=
  (text.reverse.dropWhile dropped.contains).reverse

def startsWith (text start : Bytes) : Bool :=
  start.isPrefixOf text

/-- Order by the first byte that differs; a proper beginning comes first. -/
def precedes : Bytes → Bytes → Bool
  | _, [] => false
  | [], _ :: _ => true
  | a :: as, b :: bs => a < b || (a == b && precedes as bs)

end Bytes
end Treewalk
