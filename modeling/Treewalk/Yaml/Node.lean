import Treewalk.Yaml.Value

/-! The nodes of a document. A node with an anchor has a number, by which references name it; so a
node can refer to one that it is inside of. -/

namespace Treewalk.Yaml

/-- Each node knows its line, counted from one. -/
inductive Node where
  | scalar (line : Nat) (tag : Tag) (text : List Char)
  | list (line : Nat) (tag : Tag) (items : List Node)
  | table (line : Nat) (tag : Tag) (entries : List (Node × Node))
  /-- Has a number of its own besides that of the node that it stands for. -/
  | reference (line : Nat) (name : Bytes) (number target : Nat)
  deriving Repr

structure Document where
  root : Node
  /-- The nodes with anchors, by their numbers. -/
  anchored : List (Nat × Node)
  /-- How many characters the text has. No chain of nodes in nodes is longer. -/
  size : Nat

namespace Node

def line : Node → Nat
  | scalar line _ _ | list line _ _ | table line _ _ | reference line _ _ _ => line

def isReference : Node → Bool
  | reference .. => true
  | _ => false

/-- The text of a scalar, or the name of a reference. Collections have none. -/
def text : Node → Bytes
  | scalar _ _ text => encoded text
  | reference _ name _ _ => name
  | list .. | table .. => []

def empty (line : Nat) : Node :=
  scalar line .null []

/-- As keys, are the two the same? Collections of one kind count as the same. -/
def sameKey : Node → Node → Bool
  | scalar _ _ text, scalar _ _ other => text == other
  | reference _ name _ _, reference _ other _ _ => name == other
  | list .., list .. | table .., table .. => true
  | _, _ => false

def isMerge : Node → Bool
  | scalar _ tag text => tag == .merge && text == ['<', '<']
  | _ => false

end Node

/-- The node itself, or the one that it stands for. -/
def Document.target (document : Document) (node : Node) : Node :=
  match node with
  | .reference _ _ _ target => (document.anchored.lookup target).getD node
  | _ => node

end Treewalk.Yaml
