import Treewalk.Yaml.Node
import Treewalk.Yaml.Stream

/-! Reading the first document of a text. All behind it is left alone, except for the few tokens
that are read ahead. -/

namespace Treewalk.Yaml

/-- What has been read, apart from the nodes themselves. -/
structure Reading where
  stream : Stream
  /-- What the handles of tags stand for. -/
  handles : List (Bytes × Bytes) := []
  /-- The numbers of anchors, the latest first. -/
  anchors : List (Bytes × Nat) := []
  /-- The nodes with anchors that are complete. -/
  anchored : List (Nat × Node) := []
  /-- How many numbers are given away. -/
  count : Nat := 0

abbrev Reader := StateT Reading (Except Misform)

namespace Reader

def peek : Reader Token := do
  let reading ← get
  let stream ← reading.stream.settled
  set { reading with stream }
  return stream.first

def advance : Reader Unit :=
  modify fun reading => { reading with stream := reading.stream.next }

/-- Tells that a node, or the start or end of one, has been read. What was in doubt until then is a
flaw now. -/
def complete : Reader Unit := do
  (← get).stream.checkDoubt

def fail {α : Type} (start : Nat) (token : Token) (flaw : Flaw) : Reader α :=
  throw (.inStructure start token.line flaw)

def freshNumber : Reader Nat :=
  modifyGet fun reading => (reading.count, { reading with count := reading.count + 1 })

structure Properties where
  /-- The line that the node starts on. -/
  line : Nat
  anchor : Option Bytes := none
  tag : Option Bytes := none

def expand (start : Nat) (token : Token) (handle suffix : Bytes) : Reader Bytes := do
  if handle.isEmpty then return suffix
  match (← get).handles.lookup handle with
  | some expansion => return expansion ++ suffix
  | none => fail start token .unknownHandle

/-- An anchor and a tag may come in either order. A tag is looked up when both are read. -/
def properties : Reader Properties := do
  let first ← peek
  match first.sign with
  | .anchor name =>
    advance
    let second ← peek
    match second.sign with
    | .tag handle suffix =>
      advance
      let _ ← peek
      return ⟨first.line, name, ← expand first.line second handle suffix⟩
    | _ => return ⟨first.line, name, none⟩
  | .tag handle suffix =>
    advance
    let second ← peek
    match second.sign with
    | .anchor name =>
      advance
      let _ ← peek
      return ⟨first.line, name, ← expand first.line first handle suffix⟩
    | _ => return ⟨first.line, none, ← expand first.line first handle suffix⟩
  | _ => return ⟨first.line, none, none⟩

/-- Reads a node whose anchor can be referred to from inside of it. -/
def anchoring (anchor : Option Bytes) (read : Reader Node) : Reader Node :=
  match anchor with
  | none => read
  | some name => do
    let number ← freshNumber
    modify fun reading => { reading with anchors := (name, number) :: reading.anchors }
    let node ← read
    modify fun reading => { reading with anchored := (number, node) :: reading.anchored }
    return node

def referenceNode (token : Token) (name : Bytes) : Reader Node := do
  advance
  complete
  match (← get).anchors.lookup name with
  | some target => return .reference (token.line + 1) name (← freshNumber) target
  | none => throw (.anywhere (.unknownAnchor name))

def Properties.tagOr (properties : Properties) (implied : Tag) : Tag :=
  (properties.tag.bind Tag.given?).getD implied

def emptyAt (token : Token) : Reader Node := do
  complete
  return .empty (token.line + 1)

/-- Is a token one of those before which nothing stands for an empty node? -/
def endsBlockItem (sign : Sign) : Bool :=
  sign == .dash || sign == .blockEnd

def endsBlockEntry (sign : Sign) : Bool :=
  sign == .key || sign == .value || sign == .blockEnd

def endsFlowItem (sign : Sign) : Bool :=
  sign == .comma || sign == .closing .square

def endsFlowEntry (sign : Sign) : Bool :=
  sign == .comma || sign == .closing .curly

def valueOr (ends : Sign → Bool) (value : Reader Node) : Reader Node := do
  let token ← peek
  if token.sign = .value then
    advance
    if ends (← peek).sign then emptyAt token else value
  else emptyAt token

def separator (start : Nat) (first : Bool) (flaw : Flaw) : Reader Unit := do
  if first then return ()
  let token ← peek
  if token.sign = .comma then advance else fail start token flaw

mutual

/-- A node. Lists and tables told by their indentation have a place only in such collections; a list
of dashes as the value of a table need not be indented. -/
def node : (steps : Nat) → (block unindented : Bool) → Reader Node
  | 0, _, _ => throw (.anywhere .missingContent)
  | steps + 1, block, unindented => do
    let token ← peek
    match token.sign with
    | .reference name => referenceNode token name
    | _ =>
      let properties ← properties
      let token ← peek
      let line := properties.line + 1
      anchoring properties.anchor do
        match token.sign with
        | .scalar plain text =>
          advance
          complete
          return .scalar line (properties.tagOr (.implied plain text)) text
        | .opening .square =>
          complete
          advance
          return .list line (properties.tagOr .list) (← flowItems steps token.line true)
        | .opening .curly =>
          complete
          advance
          return .table line (properties.tagOr .table) (← flowEntries steps token.line true)
        | sign =>
          if sign = .dash && unindented then
            complete
            return .list line (properties.tagOr .list) (← unindentedItems steps)
          else if sign = .listStart && block then
            complete
            advance
            return .list line (properties.tagOr .list) (← blockItems steps token.line)
          else if sign = .tableStart && block then
            complete
            advance
            return .table line (properties.tagOr .table) (← blockEntries steps token.line)
          else if properties.anchor.isSome || properties.tag.isSome then
            complete
            return .scalar line (properties.tagOr .null) []
          else fail properties.line token .missingContent

/-- The items of a list that starts on a line. -/
def blockItems : (steps start : Nat) → Reader (List Node)
  | 0, _ => throw (.anywhere .missingDash)
  | steps + 1, start => do
    let token ← peek
    match token.sign with
    | .dash =>
      advance
      let item ←
        if endsBlockItem (← peek).sign then emptyAt token else node steps true false
      return item :: (← blockItems steps start)
    | .blockEnd =>
      advance
      complete
      return []
    | _ => fail start token .missingDash

def unindentedItems : (steps : Nat) → Reader (List Node)
  | 0 => throw (.anywhere .missingDash)
  | steps + 1 => do
    let token ← peek
    if token.sign = .dash then
      advance
      let sign := (← peek).sign
      let item ←
        if endsBlockItem sign || endsBlockEntry sign then emptyAt token
        else node steps true false
      return item :: (← unindentedItems steps)
    else
      complete
      return []

def blockEntries : (steps start : Nat) → Reader (List (Node × Node))
  | 0, _ => throw (.anywhere .missingKey)
  | steps + 1, start => do
    let token ← peek
    match token.sign with
    | .key =>
      advance
      let key ←
        if endsBlockEntry (← peek).sign then emptyAt token else node steps true true
      let value ← valueOr endsBlockEntry (node steps true true)
      return (key, value) :: (← blockEntries steps start)
    | .blockEnd =>
      advance
      complete
      return []
    | _ => fail start token .missingKey

/-- The items of a list in brackets that start on a line. An entry without brackets is a table of
its own. -/
def flowItems : (steps start : Nat) → (first : Bool) → Reader (List Node)
  | 0, _, _ => throw (.anywhere .openList)
  | steps + 1, start, first => do
    if (← peek).sign = .closing .square then
      advance
      complete
      return []
    separator start first .openList
    let token ← peek
    match token.sign with
    | .key =>
      advance
      complete
      let inner ← peek
      let key ←
        if inner.sign = .value || endsFlowItem inner.sign then
          advance
          emptyAt inner
        else node steps false false
      let value ← valueOr endsFlowItem (node steps false false)
      let _ ← peek
      complete
      return .table (token.line + 1) .table [(key, value)] :: (← flowItems steps start false)
    | .closing .square =>
      advance
      complete
      return []
    | _ =>
      let item ← node steps false false
      return item :: (← flowItems steps start false)

def flowEntries : (steps start : Nat) → (first : Bool) → Reader (List (Node × Node))
  | 0, _, _ => throw (.anywhere .openTable)
  | steps + 1, start, first => do
    if (← peek).sign = .closing .curly then
      advance
      complete
      return []
    separator start first .openTable
    let token ← peek
    match token.sign with
    | .key =>
      advance
      let inner ← peek
      let key ←
        if inner.sign = .value || endsFlowEntry inner.sign then emptyAt inner
        else node steps false false
      let value ← valueOr endsFlowEntry (node steps false false)
      return (key, value) :: (← flowEntries steps start false)
    | .closing .curly =>
      advance
      complete
      return []
    | _ =>
      let key ← node steps false false
      let value ← emptyAt (← peek)
      return (key, value) :: (← flowEntries steps start false)

end

def directives : (steps : Nat) → (versioned : Bool) → Reader Unit
  | 0, _ => return ()
  | steps + 1, versioned => do
    let token ← peek
    match token.sign with
    | .version major minor =>
      if versioned then fail 0 token .secondVersion
      else if major ≠ 1 || minor ≠ 1 then fail 0 token .otherVersion
      else
        advance
        directives steps true
    | .handle name expansion =>
      if ((← get).handles.lookup name).isSome then fail 0 token .secondHandle
      else
        modify fun reading => { reading with handles := (name, expansion) :: reading.handles }
        advance
        directives steps versioned
    | _ => return ()

/-- The handles that every document has, unless it gives them another meaning. -/
def standardHandles : List (Bytes × Bytes) :=
  [(Label.exclamation, Label.exclamation),
   (Label.exclamation ++ Label.exclamation, Tag.standardExpansion)]

def useStandardHandles : Reader Unit :=
  modify fun reading => { reading with handles := reading.handles ++ standardHandles }

def isFrame : Sign → Bool
  | .version .. | .handle .. | .documentStart | .documentEnd | .finish => true
  | _ => false

/-- The root of a document, which may have a head of directives and dashes. -/
def root (steps : Nat) : Reader Node := do
  let first ← peek
  if !isFrame first.sign || first.sign = .documentEnd then
    useStandardHandles
    complete
    node steps true false
  else
    directives steps false
    useStandardHandles
    let token ← peek
    if token.sign ≠ .documentStart then fail 0 token .missingDocument
    advance
    complete
    let token ← peek
    if isFrame token.sign then emptyAt token else node steps true false

/-- The root of the first document, if there is one. The token behind it is looked at, too. -/
def firstRoot (steps : Nat) : Reader (Option Node) := do
  let _ ← peek
  advance
  complete
  let first ← peek
  if first.sign = .finish then
    complete
    return none
  let node ← root steps
  let _ ← peek
  complete
  return some node

end Reader

def Document.read (bytes : Bytes) : Except Misform (Option Document) := do
  let source := Source.ofBytes bytes
  let size := source.spots.length
  let (root, reading) ← (Reader.firstRoot (16 * (size + 2))).run { stream := .ofSource source }
  return root.map fun root => ⟨root, reading.anchored, size⟩

end Treewalk.Yaml
