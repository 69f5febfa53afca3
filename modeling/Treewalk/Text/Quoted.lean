import Treewalk.Text.Glyph
import Treewalk.Text.Printable

/-! Quoted text: a byte string between double quotes on one line, in which every character that
could not be seen, and every stray byte, stands as an escape. -/

namespace Treewalk.Text

def hexDigit (n : Nat) : Char :=
  if n < 10 then Char.ofNat (0x30 + n) else Char.ofNat (0x57 + n)

def hex : (width n : Nat) → List Char
  | 0, _ => []
  | width + 1, n => hex width (n / 16) ++ [hexDigit (n % 16)]

/-- Control characters that have a letter of their own behind the backslash. -/
def escapeLetter : Char → Option Char
  | '\x07' => some 'a'
  | '\x08' => some 'b'
  | '\x0c' => some 'f'
  | '\n' => some 'n'
  | '\r' => some 'r'
  | '\t' => some 't'
  | '\x0b' => some 'v'
  | _ => none

def escapedChar (c : Char) : List Char :=
  if c == '"' || c == '\\' then ['\\', c]
  else if isPrintable c then [c]
  else match escapeLetter c with
    | some letter => ['\\', letter]
    | none =>
      if c.toNat < 0x80 then '\\' :: 'x' :: hex 2 c.toNat
      else if c.toNat < 0x10000 then '\\' :: 'u' :: hex 4 c.toNat
      else '\\' :: 'U' :: hex 8 c.toNat

def escaped : Glyph → List Char
  | .char c => escapedChar c
  | .stray byte => '\\' :: 'x' :: hex 2 byte.toNat

def quote (text : Bytes) : Bytes :=
  utf8 '"' ++ ((Glyph.decode text).flatMap escaped).flatMap utf8 ++ utf8 '"'

end Treewalk.Text
