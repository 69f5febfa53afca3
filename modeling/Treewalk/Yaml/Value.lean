import Treewalk.Text.Base64
import Treewalk.Yaml.Tag

/-! The values of scalars, by their tags. -/

namespace Treewalk.Yaml

inductive Value where
  | null
  | bool (value : Bool)
  | int (value : Int)
  | float (value : Float)
  | timestamp
  | text (value : Bytes)
  deriving DecidableEq, Repr

inductive Contradiction where
  /-- The text stands for something else than the tag says. -/
  | otherTag (found : Tag) (text : Bytes) (asked : Tag)
  | badBinary
  deriving DecidableEq, Repr

def Contradiction.message : Contradiction → Bytes
  | otherTag found text asked =>
    .ofString "cannot decode " ++ found.name ++ .ofString " `" ++ text ++ .ofString "` as a "
      ++ asked.name
  | badBinary => .ofString "!!binary value contains invalid base64 data"

namespace Value

def ofWord (text : List Char) : Word → Value
  | .null => null
  | .bool value => bool value
  | .int value => int value
  | .float value => float value
  | .timestamp => timestamp
  | .verbatim => .text (encoded text)

/-- The value of a word that has to have a tag. A whole number may be asked for as a float. -/
def demanded (asked : Tag) (text : List Char) : Except Contradiction Value :=
  let word := Word.read (asked == .timestamp) text
  if Tag.ofWord word = asked then .ok (ofWord text word)
  else match asked, word with
    | .float, .int value =>
      if value < Word.signedBound then .ok (.float (Float.ofInt value))
      else .error (.otherTag .int (encoded text) asked)
    | _, _ => .error (.otherTag (Tag.ofWord word) (encoded text) asked)

/-- The value of a scalar. Under a tag without a meaning of its own it is the text. -/
def ofScalar (tag : Tag) (text : List Char) : Except Contradiction Value :=
  match tag with
  | .null | .bool | .int | .float | .timestamp => demanded tag text
  | .binary =>
    match Text.Base64.decode? text with
    | some bytes => .ok (.text bytes)
    | none => .error .badBinary
  | .text | .merge | .list | .table | .other _ => .ok (.text (encoded text))

end Value
end Treewalk.Yaml
