import Treewalk.Text.Bytes

/-! Reading bytes as text. A byte string is a sequence of glyphs: characters in UTF-8, and single
bytes that belong to no character. Decoding goes from left to right and loses nothing, so the
bytes of the glyphs put together are the bytes that were read. -/

namespace Treewalk

inductive Glyph where
  | char (c : Char)
  | stray (byte : UInt8)
  deriving DecidableEq, Repr, Inhabited

namespace Glyph

def bytes : Glyph → Bytes
  | char c => utf8 c
  | stray byte => [byte]

/-- The character shown for a glyph: a stray byte shows as the replacement character. -/
def shown : Glyph → Char
  | char c => c
  | stray _ => '\uFFFD'

def isChar (wanted : Char) : Glyph → Bool
  | char c => c == wanted
  | stray _ => false

/-- Does the character have the property? A stray byte never does. -/
def satisfies (property : Char → Bool) : Glyph → Bool
  | char c => property c
  | stray _ => false

def isContinuation (byte : UInt8) : Bool :=
  0x80 ≤ byte && byte ≤ 0xBF

/-- The bits of a continuation byte, or of a leading byte after its marker is taken off. -/
def payload (marker byte : UInt8) : Nat :=
  byte.toNat - marker.toNat

/-- The character that starts with `first`, and how many of the bytes after it belong to it. The
bounds on the second byte rule out overlong forms, surrogates and code points that are too
large. -/
def leading (first : UInt8) (rest : Bytes) : Option (Char × Nat) :=
  if first < 0x80 then
    some (Char.ofNat first.toNat, 0)
  else if 0xC2 ≤ first && first ≤ 0xDF then
    match rest with
    | second :: _ =>
      if isContinuation second then
        some (Char.ofNat (payload 0xC0 first * 0x40 + payload 0x80 second), 1)
      else none
    | _ => none
  else if 0xE0 ≤ first && first ≤ 0xEF then
    match rest with
    | second :: third :: _ =>
      let least : UInt8 := if first == 0xE0 then 0xA0 else 0x80
      let greatest : UInt8 := if first == 0xED then 0x9F else 0xBF
      if least ≤ second && second ≤ greatest && isContinuation third then
        some (Char.ofNat (payload 0xE0 first * 0x1000 + payload 0x80 second * 0x40
          + payload 0x80 third), 2)
      else none
    | _ => none
  else if 0xF0 ≤ first && first ≤ 0xF4 then
    match rest with
    | second :: third :: fourth :: _ =>
      let least : UInt8 := if first == 0xF0 then 0x90 else 0x80
      let greatest : UInt8 := if first == 0xF4 then 0x8F else 0xBF
      if least ≤ second && second ≤ greatest && isContinuation third && isContinuation fourth then
        some (Char.ofNat (payload 0xF0 first * 0x40000 + payload 0x80 second * 0x1000
          + payload 0x80 third * 0x40 + payload 0x80 fourth), 3)
      else none
    | _ => none
  else none

/-- Decodes after stepping over `skip` bytes that belong to the character just read. -/
def decodeAfter : (skip : Nat) → Bytes → List Glyph
  | _, [] => []
  | skip + 1, _ :: rest => decodeAfter skip rest
  | 0, first :: rest =>
    match leading first rest with
    | some (c, extra) => char c :: decodeAfter extra rest
    | none => stray first :: decodeAfter 0 rest

def decode (text : Bytes) : List Glyph :=
  decodeAfter 0 text

/-- The bytes of a run of glyphs. -/
def encode (glyphs : List Glyph) : Bytes :=
  glyphs.flatMap bytes

end Glyph

def Bytes.isText (text : Bytes) : Bool :=
  (Glyph.decode text).all (Glyph.satisfies fun _ => true)

def Bytes.shown (text : Bytes) : List Char :=
  (Glyph.decode text).map Glyph.shown

end Treewalk
