import Treewalk.Settings.Fault

/-! Settings as they are read from a document, entry by entry. What does not fit is noted and
reading goes on; only a refusal ends it. -/

namespace Treewalk

structure Settings where
  prompt : Bytes := .ofString "plam> "
  continuationPrompt : Bytes := .ofString ".... "
  historyFile : Bytes := .ofString "~/.plam_history"
  /-- Zero leaves the limit to the machine. -/
  maxCallDepth : Int := 0
  trace : Bool := false
  deriving DecidableEq, Repr

namespace Settings

/-- The whole number of 64 bits that a float is cut to. What is below all of them, or just one above
the greatest, becomes the least; what is further above has no such number. -/
def truncated? (value : Float) : Option Int :=
  let bound := Yaml.Word.signedBound
  match Decimal.Reading.ofFloat value with
  | .nan | .infinite false => none
  | .infinite true => some (-bound)
  | .finite negative magnitude =>
    let whole := magnitude.numerator / magnitude.denominator
    if negative then some (-min whole bound)
    else if whole < bound then some whole
    else if whole = bound then some (-bound)
    else none

def toInt? : Yaml.Value → Option Int
  | .int n => if n < Yaml.Word.signedBound then some n else none
  | .float value => truncated? value
  | _ => none

/-- Words for a truth value that count when one is asked for, also in quotes. -/
def switch? (text : Bytes) : Option Bool :=
  if ["y", "Y", "yes", "Yes", "YES", "on", "On", "ON"].any (Bytes.ofString · == text) then some true
  else if ["n", "N", "no", "No", "NO", "off", "Off", "OFF"].any (Bytes.ofString · == text) then
    some false
  else none

def toBool? : Yaml.Value → Option Bool
  | .bool value => some value
  | .text text => switch? text
  | _ => none

def toBytes (written : Bytes) : Yaml.Value → Bytes
  | .text text => text
  | _ => written

/-- What has been read so far, and what did not fit. -/
structure Draft where
  settings : Settings := {}
  mismatches : List Mismatch := []
  /-- How many nodes have been looked at, and how many of these behind a reference. -/
  visits : Nat := 0
  indirectVisits : Nat := 0

abbrev Decoding (α : Type) := StateT Draft (Except Refusal) α

namespace Decoding

def complain (mismatches : List Mismatch) : Decoding Unit :=
  modify fun draft => { draft with mismatches := draft.mismatches ++ mismatches }

/-- Counts a node that is looked at. A long document must not be made up of references almost
alone. -/
def visit (indirect : Bool) : Decoding Unit := do
  modify fun draft =>
    { draft with
      visits := draft.visits + 1
      indirectVisits := draft.indirectVisits + if indirect then 1 else 0 }
  let draft ← get
  if draft.visits > 1000 && 100 * draft.indirectVisits > 99 * draft.visits then
    throw .tooManyReferences

/-- Looks at a node, and at the one that it may stand for. -/
def visitNode (indirect : Bool) (node : Yaml.Node) : Decoding Unit := do
  visit indirect
  if node.isReference then visit true

def update (change : Settings → Settings) : Decoding Unit :=
  modify fun draft => { draft with settings := change draft.settings }

/-- All pairs of entries with the same key, by the first and then by the second one. -/
def repeatedKeys : List (Yaml.Node × Yaml.Node) → List Mismatch
  | [] => []
  | (key, _) :: rest =>
    (rest.filter fun (other, _) => key.sameKey other).map
        (fun (other, _) => .repeatedKey other.line other.text key.line)
      ++ repeatedKeys rest

def valueOf (tag : Yaml.Tag) (text : List Char) : Decoding Yaml.Value :=
  match Yaml.Value.ofScalar tag text with
  | .ok value => return value
  | .error cause => throw (.contradiction cause)

/-- Reads a node as a value of some kind. Null is no value, but no mismatch either. A table with
repeated keys is complained about for those alone. -/
def convert {α : Type} (document : Yaml.Document) (target : Target)
    (convert? : (written : Bytes) → Yaml.Value → Option α) (indirect : Bool) (node : Yaml.Node) :
    Decoding (Option α) := do
  visitNode indirect node
  match document.target node with
  | .scalar line tag text =>
    let value ← valueOf tag text
    match value, convert? (Yaml.encoded text) value with
    | .null, _ => return none
    | _, some result => return some result
    | _, none =>
      complain [.wrongKind line tag (Yaml.encoded text) target]
      return none
  | .list line tag _ =>
    complain [.wrongKind line tag [] target]
    return none
  | .table line tag entries =>
    let repeated := repeatedKeys entries
    complain (if repeated.isEmpty then [.wrongKind line tag [] target] else repeated)
    return none
  | .reference .. => return none

def string? (document : Yaml.Document) :
    (indirect : Bool) → Yaml.Node → Decoding (Option Bytes) :=
  convert document .string fun written value => some (toBytes written value)

def int? (document : Yaml.Document) : (indirect : Bool) → Yaml.Node → Decoding (Option Int) :=
  convert document .int fun _ value => toInt? value

def bool? (document : Yaml.Document) : (indirect : Bool) → Yaml.Node → Decoding (Option Bool) :=
  convert document .bool fun _ value => toBool? value

end Decoding

inductive Field where
  | prompt
  | continuationPrompt
  | historyFile
  | maxCallDepth
  | trace
  deriving DecidableEq, Repr

namespace Field

def name : Field → Bytes
  | prompt => .ofString "prompt"
  | continuationPrompt => .ofString "continuation_prompt"
  | historyFile => .ofString "history_file"
  | maxCallDepth => .ofString "max_call_depth"
  | trace => .ofString "trace"

def ofName? (name : Bytes) : Option Field :=
  [prompt, continuationPrompt, historyFile, maxCallDepth, trace].find? (·.name == name)

def assign {α : Type} (value : Decoding (Option α)) (change : α → Settings → Settings) :
    Decoding Unit := do
  if let some value ← value then Decoding.update (change value)

def set (document : Yaml.Document) (indirect : Bool) (node : Yaml.Node) : Field → Decoding Unit
  | prompt =>
    assign (Decoding.string? document indirect node) fun prompt settings =>
      { settings with prompt }
  | continuationPrompt =>
    assign (Decoding.string? document indirect node) fun continuationPrompt settings =>
      { settings with continuationPrompt }
  | historyFile =>
    assign (Decoding.string? document indirect node) fun historyFile settings =>
      { settings with historyFile }
  | maxCallDepth =>
    assign (Decoding.int? document indirect node) fun maxCallDepth settings =>
      { settings with maxCallDepth }
  | trace =>
    assign (Decoding.bool? document indirect node) fun trace settings => { settings with trace }

end Field

namespace Decoding

/-- How far the entries of a table have been taken. -/
structure Progress where
  /-- The keys that were there before the table was merged in; none if it is not. -/
  present : Option (List Bytes)
  done : List Field := []
  /-- What the table itself merges in. -/
  merge : Option Yaml.Node := none

/-- Takes one entry. In a table that is merged in, keys that are already there do not count. -/
def takeEntry (document : Yaml.Document) (indirect : Bool) (progress : Progress)
    (entry : Yaml.Node × Yaml.Node) : Decoding Progress := do
  let (key, value) := entry
  if key.isMerge then return { progress with merge := some value }
  match ← string? document indirect key with
  | none => return progress
  | some name =>
    if progress.present.any (·.contains name) then return progress
    let progress := { progress with present := progress.present.map (name :: ·) }
    match Field.ofName? name with
    | none =>
      complain [.unknownKey key.line name]
      return progress
    | some field =>
      if progress.done.contains field then
        complain [.repeatedSetting key.line name]
        return progress
      else
        field.set document indirect value
        return { progress with done := field :: progress.done }

/-- The text that a key stands for, if it is one. -/
def textKey? (document : Yaml.Document) (indirect : Bool) (key : Yaml.Node) :
    Decoding (Option Bytes) := do
  visitNode indirect key
  match document.target key with
  | .scalar _ tag text =>
    match ← valueOf tag text with
    | .text name => return some name
    | _ => return none
  | _ => return none

/-- The nodes that are to be merged in: one, or a list of them. -/
def mergedNodes : Yaml.Node → List Yaml.Node
  | .list _ _ items => items
  | node => [node]

/-- Takes the entries of a table and then of those that it merges in. The references that are being
followed are `active`; none may lead to itself. Returns the keys that are present afterwards. -/
def takeTable (document : Yaml.Document) : (steps : Nat) → (active : List Nat) →
    (present : Option (List Bytes)) → List (Yaml.Node × Yaml.Node) →
    Decoding (Option (List Bytes))
  | 0, _, present, _ => return present
  | steps + 1, active, present, entries => do
    let indirect := !active.isEmpty
    let repeated := repeatedKeys entries
    if !repeated.isEmpty then
      complain repeated
      return present
    let progress ← entries.foldlM (takeEntry document indirect) { present }
    match progress.merge with
    | none => return progress.present
    | some node =>
      let known ←
        match progress.present with
        | some known => pure known
        | none => entries.filterMapM fun (key, _) => textKey? document indirect key
      let known ← (mergedNodes node).foldlM (fun known node => do
        match node, document.target node with
        | .reference _ name number _, .table _ _ entries =>
          visit indirect
          if active.contains number then throw (.selfReference name)
          visit true
          takeTable document steps (number :: active) known entries
        | _, .table _ _ entries =>
          visit indirect
          takeTable document steps active known entries
        | _, _ => throw .badMerge) (some known)
      return progress.present.bind fun _ => known

/-- Takes a whole document. No chain of tables merged into tables is longer than the number of
references times the depth of nodes. -/
def takeDocument (document : Yaml.Document) : Decoding Unit := do
  visit false
  visit false
  match document.root with
  | .table _ _ entries =>
    let steps := (document.size + 2) * (document.size + 2)
    let _ ← takeTable document steps [] none entries
  | .scalar line tag text =>
    if (← valueOf tag text) ≠ .null then
      complain [.wrongKind line tag (Yaml.encoded text) .settings]
  | .list line tag _ => complain [.wrongKind line tag [] .settings]
  | .reference .. => return ()

end Decoding
end Settings
end Treewalk
