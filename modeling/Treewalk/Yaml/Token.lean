import Treewalk.Yaml.Source

/-! The tokens of a YAML text, and what looking for one can yield. -/

namespace Treewalk.Yaml

/-- Curly brackets, or square ones? -/
inductive Bracket where
  | curly
  | square
  deriving DecidableEq, Repr

inductive Sign where
  /-- The start and the end of the text. -/
  | start
  | finish
  | version (major minor : Nat)
  /-- What a handle in front of tags stands for. -/
  | handle (name expansion : Bytes)
  | documentStart
  | documentEnd
  /-- The start of a list or table that is told by its indentation, and the end of either. -/
  | listStart
  | tableStart
  | blockEnd
  | opening (bracket : Bracket)
  | closing (bracket : Bracket)
  | comma
  | dash
  | key
  | value
  | anchor (name : Bytes)
  | reference (name : Bytes)
  | tag (handle suffix : Bytes)
  | scalar (plain : Bool) (text : List Char)
  deriving DecidableEq, Repr

structure Token where
  line : Nat
  sign : Sign
  deriving DecidableEq, Repr

/-- Something found at the front of a text, and the text behind it. -/
structure Found (α : Type) where
  value : α
  rest : List Spot

/-- Why something was not found, and the text from where that is clear. -/
structure Obstacle where
  flaw : Flaw
  rest : List Spot

end Treewalk.Yaml
