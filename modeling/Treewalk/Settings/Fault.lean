import Treewalk.Text.Quoted
import Treewalk.Yaml.Node

/-! What can be wrong with a settings file, and how it is said. -/

namespace Treewalk.Settings

inductive Target where
  | string
  | int
  | bool
  | settings
  deriving DecidableEq, Repr

def Target.text : Target → Bytes
  | string => .ofString "string"
  | int => .ofString "int"
  | bool => .ofString "bool"
  | settings => .ofString "config.Config"

/-- An entry of a well-formed file that does not fit. -/
inductive Mismatch where
  | repeatedKey (line : Nat) (key : Bytes) (firstLine : Nat)
  | unknownKey (line : Nat) (key : Bytes)
  /-- The same setting under keys that are written in different ways. -/
  | repeatedSetting (line : Nat) (key : Bytes)
  | wrongKind (line : Nat) (tag : Yaml.Tag) (text : Bytes) (target : Target)
  deriving DecidableEq, Repr

/-- What makes a file useless, whatever else does not fit. -/
inductive Refusal where
  | contradiction (cause : Yaml.Contradiction)
  | badMerge
  | selfReference (name : Bytes)
  | tooManyReferences
  deriving DecidableEq, Repr

inductive DecodingFault where
  | misform (misform : Yaml.Misform)
  | refusal (cause : Refusal)
  | mismatches (list : List Mismatch)
  deriving DecidableEq, Repr

inductive Fault where
  | undecodable (reason : Bytes)
  | negativeDepth (depth : Int)
  deriving DecidableEq, Repr

/-- The text of a value in a message, where a long one is cut off. Under the tags of collections it
stands bare, since those have none. -/
def excerpt (tag : Yaml.Tag) (text : Bytes) : Bytes :=
  if tag = .list || tag = .table then text
  else
    let cut := if text.length > 10 then text.take 7 ++ Bytes.ofString "..." else text
    .ofString " `" ++ cut ++ .ofString "`"

def Mismatch.message : Mismatch → Bytes
  | repeatedKey line key firstLine =>
    .ofString "line " ++ .ofNat line ++ .ofString ": mapping key " ++ Text.quote key
      ++ .ofString " already defined at line " ++ .ofNat firstLine
  | unknownKey line key =>
    .ofString "line " ++ .ofNat line ++ .ofString ": field " ++ key
      ++ .ofString " not found in type config.Config"
  | repeatedSetting line key =>
    .ofString "line " ++ .ofNat line ++ .ofString ": field " ++ key
      ++ .ofString " already set in type config.Config"
  | wrongKind line tag text target =>
    .ofString "line " ++ .ofNat line ++ .ofString ": cannot unmarshal " ++ tag.name
      ++ excerpt tag text ++ .ofString " into " ++ target.text

def Refusal.message : Refusal → Bytes
  | contradiction cause => cause.message
  | badMerge => .ofString "map merge requires map or sequence of maps as the value"
  | selfReference name => .ofString "anchor '" ++ name ++ .ofString "' value contains itself"
  | tooManyReferences => .ofString "document contains excessive aliasing"

def DecodingFault.message : DecodingFault → Bytes
  | misform place => .ofString "yaml: " ++ place.message
  | refusal cause => .ofString "yaml: " ++ cause.message
  | mismatches list =>
    .ofString "yaml: unmarshal errors:\n  "
      ++ Bytes.joinWith (.ofString "\n  ") (list.map Mismatch.message)

def Fault.message : Fault → Bytes
  | undecodable reason => .ofString "config: " ++ reason
  | negativeDepth depth =>
    .ofString "config: max_call_depth must not be negative, got " ++ .ofInt depth

end Treewalk.Settings
