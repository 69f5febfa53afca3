import Treewalk.Text.Glyph
import Treewalk.Text.Lowercase

/-! Names in lower case, for comparisons that do not look at case. A name is folded piece by piece:
each piece is seen through a window of the name and written into the room that is left. Two things
make long or broken names differ from their letters in lower case. A replacement character counts
as a single byte of the name, so the bytes behind it may be seen once more; and the character that
finds no room any more is lost. -/

namespace Treewalk.Folding

/-- How many bytes of a name are seen at a time, and the room to start with. -/
def window : Nat := 128

structure Piece where
  folded : Bytes
  /-- How many bytes of the name it accounts for. -/
  taken : Nat
  /-- Was there no room for its last character? -/
  overfull : Bool

/-- How many bytes of the name a character accounts for. -/
def extent (c : Char) : Nat :=
  if c == '\uFFFD' then 1 else (utf8 c).length

def Piece.ofGlyphs : (room : Nat) → List Glyph → Piece
  | _, [] => ⟨[], 0, false⟩
  | room, glyph :: rest =>
    let lower := utf8 (Text.toLower glyph.shown)
    if room < lower.length then ⟨[], extent glyph.shown, true⟩
    else
      let more := ofGlyphs (room - lower.length) rest
      ⟨lower ++ more.folded, extent glyph.shown + more.taken, more.overfull⟩

def Piece.first (room : Nat) (name : Bytes) : Piece :=
  .ofGlyphs room (Glyph.decode (name.take window))

theorem extent_pos (c : Char) : 0 < extent c := by
  unfold extent utf8
  split
  · decide
  · dsimp only
    repeat' split
    all_goals simp

theorem Piece.taken_first_pos (room : Nat) (name : Bytes) (nonempty : name ≠ []) :
    0 < (Piece.first room name).taken := by
  match name with
  | [] => exact absurd rfl nonempty
  | byte :: rest =>
    have decoded : ∃ glyph glyphs, Glyph.decode ((byte :: rest).take window) = glyph :: glyphs := by
      simp only [window, List.take_succ_cons, Glyph.decode, Glyph.decodeAfter]
      split <;> exact ⟨_, _, rfl⟩
    obtain ⟨glyph, glyphs, same⟩ := decoded
    simp only [Piece.first, same, Piece.ofGlyphs]
    have positive := extent_pos glyph.shown
    split <;> simp only <;> omega

def enlarged (room : Nat) : Nat :=
  if room ≤ 32 then 64 else if room ≤ 256 then 2 * room else room + room / 2

/-- Folds what is left of a name when so many bytes are written of all that there is room for. There
is more room once not even one character fits. -/
def remainder (room written : Nat) (name : Bytes) : Bytes :=
  if _left : name = [] then []
  else
    let piece := Piece.first (room - written) name
    let capacity := if piece.overfull && piece.folded.isEmpty then enlarged room else room
    piece.folded ++ remainder capacity (written + piece.folded.length) (name.drop piece.taken)
termination_by name.length
decreasing_by
  have taken := Piece.taken_first_pos (room - written) name _left
  have positive := List.length_pos_iff.mpr _left
  simp only [List.length_drop]
  omega

/-- Folds what is left behind `kept`, the part of the name that is the same in lower case. Each
piece starts with all of the first room until one of them differs from the name. -/
def behind (kept name : Bytes) : Bytes :=
  if _left : name = [] then kept
  else
    let piece := Piece.first window name
    let seen := name.take piece.taken
    if piece.folded == seen && !piece.overfull then behind (kept ++ seen) (name.drop piece.taken)
    else
      let written := kept ++ piece.folded
      let same := piece.folded == seen
      let room :=
        if (same || !kept.isEmpty) && written.length > window then
          kept.length + name.length + piece.folded.length - piece.taken
        else window
      written ++ remainder room written.length (name.drop piece.taken)
termination_by name.length
decreasing_by
  have taken := Piece.taken_first_pos window name _left
  have positive := List.length_pos_iff.mpr _left
  simp only [List.length_drop]
  omega

def folded (name : Bytes) : Bytes :=
  behind [] name

end Treewalk.Folding
