import Treewalk.Path

/-! Files that are read whole, and why reading one may fail. -/

namespace Treewalk

inductive ReadFailure.Reason where
  | missing
  | notDirectory
  | isDirectory
  | other (text : Bytes)
  deriving DecidableEq, Repr

structure ReadFailure where
  /-- The path as it was given. -/
  path : Bytes
  reason : ReadFailure.Reason
  deriving DecidableEq, Repr

/-- A directory can be opened, and fails only when it is read. -/
def ReadFailure.message (failure : ReadFailure) : Bytes :=
  match failure.reason with
  | .missing => .ofString "open " ++ failure.path ++ .ofString ": no such file or directory"
  | .notDirectory => .ofString "open " ++ failure.path ++ .ofString ": not a directory"
  | .isDirectory => .ofString "read " ++ failure.path ++ .ofString ": is a directory"
  | .other text => .ofString "open " ++ failure.path ++ .ofString ": " ++ text

abbrev FileReader := Bytes → Except ReadFailure Bytes

/-- The text of a script. A first line that starts with `#!` is for whoever starts the script: only
the newline behind it stays, so that lines keep their numbers. -/
def withoutShebang (text : Bytes) : Bytes :=
  if text.startsWith (.ofString "#!") then text.dropWhile (· != 0x0A) else text

def readScript (read : FileReader) (path : Bytes) : Except ReadFailure Bytes :=
  (read path).map withoutShebang

/-- A working directory: the files and directories below it, each by the names that lead to it. What
lies on the way to one of them is a directory. -/
structure Folder where
  entries : List (List Bytes × Option Bytes)

namespace Folder

/-- Files by their paths; an entry without contents is a directory. -/
def ofPaths (files : List (Bytes × Option Bytes)) : Folder where
  entries := files.map fun (path, contents) =>
    ((Path.names path).filter fun name => name ≠ [] ∧ name ≠ Path.here, contents)

inductive Place where
  | file (contents : Bytes)
  | directory
  | nothing

def placeAt (folder : Folder) (names : List Bytes) : Place :=
  match folder.entries.find? fun entry => entry.1 == names with
  | some (_, some contents) => .file contents
  | some (_, none) => .directory
  | none =>
    if names.isEmpty || folder.entries.any fun entry => names.isPrefixOf entry.1 then .directory
    else .nothing

/-- Where a walk has come to: below the working directory, or somewhere outside of it. -/
inductive Position where
  | within (names : List Bytes)
  | outside

def enter (folder : Folder) (name : Bytes) : Position → Except ReadFailure.Reason Position
  | .outside =>
    if name = [] ∨ name = Path.here ∨ name = Path.parent then .ok .outside else .error .missing
  | .within names =>
    match folder.placeAt names with
    | .nothing => .error .missing
    | .file _ => .error .notDirectory
    | .directory =>
      if name = [] ∨ name = Path.here then .ok (.within names)
      else if name = Path.parent then
        .ok (if names.isEmpty then .outside else .within names.dropLast)
      else .ok (.within (names ++ [name]))

def contentsAt (folder : Folder) : Position → Except ReadFailure.Reason Bytes
  | .outside => .error .isDirectory
  | .within names =>
    match folder.placeAt names with
    | .file contents => .ok contents
    | .directory => .error .isDirectory
    | .nothing => .error .missing

def read (folder : Folder) : FileReader := fun path =>
  let start := if Path.isRooted path then .outside else .within []
  let contents : Except ReadFailure.Reason Bytes :=
    if path.isEmpty then .error .missing
    else do
      let walk := fun position name => folder.enter name position
      folder.contentsAt (← (Path.names path).foldlM walk start)
  contents.mapError fun reason => { path, reason }

end Folder
end Treewalk
