import Treewalk.Yaml.Quotation

/-! Texts told by their indentation, behind a bar or an angle bracket. Behind a bar lines stay as
they are; behind an angle bracket single newlines between lines are folded. -/

namespace Treewalk.Yaml.BlockText

inductive Chomping where
  | strip
  | clip
  | keep
  deriving DecidableEq, Repr

def Chomping.ofChar? (c : Char) : Option Chomping :=
  if c == '+' then some keep else if c == '-' then some strip else none

/-- The indications behind the bar or bracket. Without an indentation the first line gives it. -/
structure Header where
  chomping : Chomping := .clip
  indentation : Option Nat := none

def indentation : List Spot → Except Obstacle (Found (Option Nat))
  | [] => .ok ⟨none, []⟩
  | spot :: rest =>
    if spot.char == '0' then .error ⟨.zeroIndentation, spot :: rest⟩
    else match digit? 10 spot.char with
      | some digit => .ok ⟨some digit, rest⟩
      | none => .ok ⟨none, spot :: rest⟩

def chomping : List Spot → Found (Option Chomping)
  | [] => ⟨none, []⟩
  | spot :: rest =>
    match Chomping.ofChar? spot.char with
    | some chomping => ⟨some chomping, rest⟩
    | none => ⟨none, spot :: rest⟩

def lineEnd (spots : List Spot) : Except Obstacle (List Spot) :=
  match spots.dropWhile Spot.isBlank with
  | [] => .ok []
  | spot :: rest =>
    let behind := if spot.char == '#' then rest.dropWhile (!·.isBreak) else spot :: rest
    match behind with
    | [] => .ok []
    | spot :: rest => if spot.isBreak then .ok rest else .error ⟨.badLineEnd, spot :: rest⟩

/-- The two indications may come in either order. -/
def header (spots : List Spot) : Except Obstacle (Found Header) := do
  let first := chomping spots
  let digit ← indentation first.rest
  let last := if first.value.isSome then ⟨none, digit.rest⟩ else chomping digit.rest
  let rest ← lineEnd last.rest
  return ⟨⟨(first.value <|> last.value).getD .clip, digit.value⟩, rest⟩

/-- The lines in front of the first one that is not empty. -/
structure Margin where
  breaks : List Char := []
  /-- The longest indentation seen. -/
  widest : Nat := 0

def margin (limit : Option Nat) : Margin → List Spot → Except Obstacle (Found Margin)
  | margin, [] => .ok ⟨margin, []⟩
  | found, spot :: rest =>
    let inside := limit.all (spot.mark.column < ·)
    if spot.char == ' ' && inside then
      margin limit { found with widest := max found.widest (spot.mark.column + 1) } rest
    else if spot.char == '\t' && inside then .error ⟨.tabInIndentation, spot :: rest⟩
    else if spot.isBreak then
      margin limit { found with breaks := found.breaks ++ [spot.shownBreak] } rest
    else .ok ⟨found, spot :: rest⟩

/-- A text as far as it has been read. -/
structure Draft where
  /-- The text in reverse. -/
  taken : List Char := []
  /-- The end of the last line. -/
  lineEnd : List Char := []
  /-- The ends of the empty lines after it. -/
  breaks : List Char := []
  startsBlank : Bool := false
  inLine : Bool := false

namespace Draft

/-- Starts another line with a character. Folded is a newline between two lines neither of which
starts with a blank. -/
def startLine (folds : Bool) (draft : Draft) (c : Char) : Draft :=
  let joint :=
    if folds && !draft.startsBlank && !isBlank c && draft.lineEnd == ['\n'] then
      if draft.breaks.isEmpty then [' '] else draft.breaks
    else draft.lineEnd ++ draft.breaks
  { taken := c :: (joint.reverse ++ draft.taken), startsBlank := isBlank c, inLine := true }

def text (draft : Draft) : Chomping → List Char
  | .strip => draft.taken.reverse
  | .clip => draft.taken.reverse ++ draft.lineEnd
  | .keep => draft.taken.reverse ++ draft.lineEnd ++ draft.breaks

end Draft

def lines (folds : Bool) (indent : Nat) : Draft → List Spot → Except Obstacle (Found Draft)
  | draft, [] => .ok ⟨draft, []⟩
  | draft, spot :: rest =>
    if draft.inLine then
      if spot.isBreak then
        lines folds indent { draft with lineEnd := [spot.shownBreak], inLine := false } rest
      else lines folds indent { draft with taken := spot.char :: draft.taken } rest
    else if spot.isBreak then
      lines folds indent { draft with breaks := draft.breaks ++ [spot.shownBreak] } rest
    else if spot.mark.column < indent then
      if spot.char == ' ' then lines folds indent draft rest
      else if spot.char == '\t' then .error ⟨.tabInIndentation, spot :: rest⟩
      else .ok ⟨draft, spot :: rest⟩
    else if spot.mark.column = indent then
      lines folds indent (draft.startLine folds spot.char) rest
    else .ok ⟨draft, spot :: rest⟩

def read (folds : Bool) (indent : Int) (spots : List Spot) :
    Except Obstacle (Found (List Char)) := do
  let header ← header spots
  let given := header.value.indentation.map (max indent 0).toNat.add
  let start ← margin given {} header.rest
  let found := max (max start.value.widest (indent + 1).toNat) 1
  let draft ← lines folds (given.getD found) { breaks := start.value.breaks } start.rest
  return ⟨draft.value.text header.value.chomping, draft.rest⟩

end Treewalk.Yaml.BlockText
