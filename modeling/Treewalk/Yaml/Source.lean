import Treewalk.Yaml.Flaw

/-! The characters of a YAML text and their places. A text is in UTF-8, or in UTF-16 if it starts
with a mark for that. It is decoded in portions, each when something of it is asked for; so a flaw
in one of them shows only to those who get that far. A carriage return and a newline are one line
end; most kinds of line ends are read as a newline. -/

namespace Treewalk.Yaml

/-- A place in a text, counted from zero: the characters, the lines and those of the line in front
of it. -/
structure Mark where
  index : Nat := 0
  line : Nat := 0
  column : Nat := 0
  deriving DecidableEq, Repr

structure Spot where
  char : Char
  mark : Mark
  /-- Does a newline belong to it, as to a carriage return? -/
  paired : Bool := false
  deriving DecidableEq, Repr

/-- The characters of a text, and the place behind the last one. With a defect, what follows there
cannot be decoded. -/
structure Source where
  spots : List Spot
  finish : Mark
  defect : Option Flaw := none
  /-- The numbers of characters in front of the ends of its sound portions. -/
  portionEnds : List Nat := []

def isBlank (c : Char) : Bool :=
  c == ' ' || c == '\t'

def isBreak (c : Char) : Bool :=
  c == '\n' || c == '\r' || c == '\u0085' || c == '\u2028' || c == '\u2029'

namespace Spot

def isBlank (spot : Spot) : Bool :=
  Yaml.isBlank spot.char

def isBreak (spot : Spot) : Bool :=
  Yaml.isBreak spot.char

def isWideBreak (spot : Spot) : Bool :=
  spot.isBreak && spot.char != '\n' && spot.char != '\r'

/-- What a line end is read as. The line and paragraph separators stay what they are, all others
become newlines. -/
def shownBreak (spot : Spot) : Char :=
  if spot.char == '\u2028' || spot.char == '\u2029' then spot.char else '\n'

/-- The characters of the text that stand here. -/
def chars (spot : Spot) : List Char :=
  if spot.paired then [spot.char, '\n'] else [spot.char]

def markAt (finish : Mark) : List Spot → Mark
  | [] => finish
  | spot :: _ => spot.mark

/-- Is there nothing left, or a blank or a line end at the front? -/
def divides : List Spot → Bool
  | [] => true
  | spot :: _ => spot.isBlank || spot.isBreak

/-- Do three such characters stand alone at the start of a line? -/
def isTriple (c : Char) : List Spot → Bool
  | first :: second :: third :: rest =>
    first.mark.column == 0 && first.char == c && second.char == c && third.char == c
      && divides rest
  | _ => false

def atDocument (spots : List Spot) : Bool :=
  isTriple '-' spots || isTriple '.' spots

end Spot

namespace Source

def isAllowed (code : Nat) : Bool :=
  code == 0x09 || code == 0x0A || code == 0x0D || (0x20 ≤ code && code ≤ 0x7E) || code == 0x85
    || (0xA0 ≤ code && code ≤ 0xD7FF) || (0xE000 ≤ code && code ≤ 0xFFFD)
    || (0x10000 ≤ code && code ≤ 0x10FFFF)

def allowed (code : Nat) : Except Flaw Char :=
  if isAllowed code then .ok (Char.ofNat code) else .error .controlCharacter

def width? (byte : UInt8) : Option Nat :=
  if byte < 0x80 then some 1
  else if 0xC0 ≤ byte && byte < 0xE0 then some 2
  else if 0xE0 ≤ byte && byte < 0xF0 then some 3
  else if 0xF0 ≤ byte && byte < 0xF8 then some 4
  else none

def isTrailing (byte : UInt8) : Bool :=
  0x80 ≤ byte && byte < 0xC0

/-- The code point with so many bytes of which the first one stands for `lead`. -/
def codePoint (width lead : Nat) (trailing : Bytes) : Except Flaw Nat :=
  let code := trailing.foldl (fun code byte => 0x40 * code + (byte.toNat - 0x80)) lead
  let least := if width = 1 then 0 else if width = 2 then 0x80 else if width = 3 then 0x800
    else 0x10000
  if !trailing.all isTrailing then .error .badTrailingByte
  else if code < least then .error .overlongCharacter
  else if code.isValidChar then .ok code
  else .error .badCodePoint

/-- The characters that some bytes stand for, up to a flaw if there is one, and the bytes that are
left over. -/
structure Decoded where
  chars : List Char := []
  flaw : Option Flaw := none
  left : Bytes := []

def Decoded.cons (char : Except Flaw Char) (rest : Decoded) : Decoded :=
  match char with
  | .ok c => { rest with chars := c :: rest.chars }
  | .error flaw => { flaw }

/-- Decodes UTF-8 after stepping over `skip` bytes of the character just read. The bytes of a
character that is not complete are left over. -/
def utf8Chars : (skip : Nat) → Bytes → Decoded
  | _, [] => {}
  | skip + 1, _ :: rest => utf8Chars skip rest
  | 0, first :: rest =>
    match width? first with
    | none => { flaw := some .badLeadingByte }
    | some width =>
      let trailing := rest.take (width - 1)
      let marker := if width = 1 then 0 else if width = 2 then 0xC0 else if width = 3 then 0xE0
        else 0xF0
      if trailing.length + 1 < width then { left := first :: rest }
      else
        .cons (codePoint width (first.toNat - marker) trailing >>= allowed)
          (utf8Chars (width - 1) rest)

def isHighSurrogate (unit : Nat) : Bool :=
  0xD800 ≤ unit && unit < 0xDC00

def isLowSurrogate (unit : Nat) : Bool :=
  0xDC00 ≤ unit && unit < 0xE000

def unit (highFirst : Bool) (a b : UInt8) : Nat :=
  if highFirst then 0x100 * a.toNat + b.toNat else 0x100 * b.toNat + a.toNat

def utf16Chars (highFirst : Bool) : Bytes → Decoded
  | a :: b :: rest =>
    let high := unit highFirst a b
    if isLowSurrogate high then { flaw := some .looseSurrogate }
    else if isHighSurrogate high then
      match rest with
      | c :: d :: rest =>
        let low := unit highFirst c d
        if isLowSurrogate low then
          .cons (allowed (0x10000 + (high - 0xD800) * 0x400 + (low - 0xDC00)))
            (utf16Chars highFirst rest)
        else { flaw := some .badPair }
      | _ => { left := a :: b :: rest }
    else .cons (allowed high) (utf16Chars highFirst rest)
  | rest => { left := rest }

inductive Encoding where
  | utf8
  | utf16 (highFirst : Bool)

namespace Encoding

def decode : Encoding → Bytes → Decoded
  | utf8, bytes => utf8Chars 0 bytes
  | utf16 highFirst, bytes => utf16Chars highFirst bytes

def cut? : Encoding → Bytes → Option Flaw
  | _, [] => none
  | utf8, _ => some .cutCharacter
  | utf16 _, [_] => some .cutUnit
  | utf16 _, _ => some .cutPair

end Encoding

def portion : Nat := 512

/-- The sound portions of a text, the characters up to a flaw behind them, and that flaw. -/
structure Portions where
  sound : List (List Char) := []
  remnant : List Char := []
  flaw : Option Flaw := none

/-- Bytes that are held over, or a mark in front, take some of the next portion. -/
def decodable (encoding : Encoding) (used : Nat) (held bytes : Bytes) : Portions :=
  if _left : bytes = [] then { flaw := encoding.cut? held }
  else
    let room := portion - min used 3
    let decoded := encoding.decode (held ++ bytes.take room)
    if decoded.flaw.isSome then { remnant := decoded.chars, flaw := decoded.flaw }
    else
      let more := decodable encoding decoded.left.length decoded.left (bytes.drop room)
      { more with sound := decoded.chars :: more.sound }
termination_by bytes.length
decreasing_by
  have positive := List.length_pos_iff.mpr _left
  simp only [List.length_drop, portion]
  omega

/-- The portions of a text. A mark at the front tells how they are encoded. -/
def portions : Bytes → Portions
  | 0xEF :: 0xBB :: 0xBF :: rest => decodable .utf8 3 [] rest
  | 0xFF :: 0xFE :: rest => decodable (.utf16 false) 2 [] rest
  | 0xFE :: 0xFF :: rest => decodable (.utf16 true) 2 [] rest
  | bytes => decodable .utf8 0 [] bytes

def cons (spot : Spot) (source : Source) : Source :=
  { source with spots := spot :: source.spots }

def place (mark : Mark) : List Char → Source
  | [] => { spots := [], finish := mark }
  | '\r' :: '\n' :: rest =>
    cons ⟨'\r', mark, true⟩ (place ⟨mark.index + 2, mark.line + 1, 0⟩ rest)
  | c :: rest =>
    let behind : Mark :=
      if isBreak c then ⟨mark.index + 1, mark.line + 1, 0⟩
      else ⟨mark.index + 1, mark.line, mark.column + 1⟩
    cons ⟨c, mark, false⟩ (place behind rest)

/-- How many characters end with each portion, if there are some before. -/
def endsOf : (before : Nat) → List (List Char) → List Nat
  | _, [] => []
  | before, portion :: more => (before + portion.length) :: endsOf (before + portion.length) more

def ofBytes (bytes : Bytes) : Source :=
  let portions := portions bytes
  { place {} (portions.sound.flatten ++ portions.remnant) with
    defect := portions.flaw
    portionEnds := endsOf 0 portions.sound }

end Source
end Treewalk.Yaml
