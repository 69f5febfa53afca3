import Treewalk.Text.Bytes

/-! Paths: names between slashes. A path that starts with a slash is rooted. -/

namespace Treewalk.Path

def slash : UInt8 := 0x2F

def here : Bytes := .ofString "."

def parent : Bytes := .ofString ".."

/-- The names between the slashes. A path without a slash is its only name. -/
def names : Bytes → List Bytes
  | [] => [[]]
  | byte :: rest =>
    if byte = slash then [] :: names rest
    else match names rest with
      | [] => [[byte]]
      | name :: others => (byte :: name) :: others

def isRooted : Bytes → Bool
  | [] => false
  | byte :: _ => byte == slash

/-- Goes on to one more name; the names passed before are in reverse. Nothing lies above a root. -/
def step (rooted : Bool) (passed : List Bytes) (name : Bytes) : List Bytes :=
  if name = [] ∨ name = here then passed
  else if name = parent then
    match passed with
    | [] => if rooted then [] else [parent]
    | last :: others => if last = parent then parent :: passed else others
  else name :: passed

/-- The shortest spelling that names the same place. -/
def clean (path : Bytes) : Bytes :=
  let rooted := isRooted path
  let kept := Bytes.joinWith [slash] ((names path).foldl (step rooted) []).reverse
  if rooted then slash :: kept
  else if kept.isEmpty then here
  else kept

/-- What `path` names when it is looked up in `directory`. -/
def join (directory path : Bytes) : Bytes :=
  clean (directory ++ slash :: path)

end Treewalk.Path
