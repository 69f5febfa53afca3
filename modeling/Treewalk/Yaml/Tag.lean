import Treewalk.Yaml.Label
import Treewalk.Yaml.Word

/-! Tags: what kind of thing a node is said to be. -/

namespace Treewalk.Yaml

inductive Tag where
  | null
  | bool
  | int
  | float
  | text
  | timestamp
  | binary
  | merge
  | list
  | table
  | other (name : Bytes)
  deriving DecidableEq, Repr

namespace Tag

def name : Tag → Bytes
  | null => .ofString "!!null"
  | bool => .ofString "!!bool"
  | int => .ofString "!!int"
  | float => .ofString "!!float"
  | text => .ofString "!!str"
  | timestamp => .ofString "!!timestamp"
  | binary => .ofString "!!binary"
  | merge => .ofString "!!merge"
  | list => .ofString "!!seq"
  | table => .ofString "!!map"
  | other name => name

def standard : List Tag :=
  [null, bool, int, float, text, timestamp, binary, merge, list, table]

def ofName (name : Bytes) : Tag :=
  (standard.find? (·.name == name)).getD (other name)

def standardExpansion : Bytes := .ofString "tag:yaml.org,2002:"

/-- A tag as it is given. A single exclamation mark says nothing. -/
def given? (text : Bytes) : Option Tag :=
  if text = Label.exclamation then none
  else if text.startsWith standardExpansion then
    some (ofName (.ofString "!!" ++ text.drop standardExpansion.length))
  else some (ofName text)

def ofWord : Word → Tag
  | .null => null
  | .bool _ => bool
  | .int _ => int
  | .float _ => float
  | .timestamp => timestamp
  | .verbatim => text

/-- The tag of a scalar that has none. -/
def implied (plain : Bool) (text : List Char) : Tag :=
  if !plain then .text
  else if text == ['<', '<'] then merge
  else ofWord (.read true text)

end Tag
end Treewalk.Yaml
