import Treewalk.Yaml.Token

/-! Texts without quotes. They may go on over several lines; the line ends between two words are
folded. -/

namespace Treewalk.Yaml

/-- What stands between two words of a text. -/
structure Gap where
  /-- The blanks, as long as no line ends. -/
  blanks : List Char := []
  lineEnded : Bool := false
  /-- Does the first line end count as nothing? -/
  escaped : Bool := false
  /-- The line ends that count. -/
  breaks : List Char := []

namespace Gap

def isEmpty (gap : Gap) : Bool :=
  gap.blanks.isEmpty && !gap.lineEnded

def addBlank (gap : Gap) (c : Char) : Gap :=
  if gap.lineEnded then gap else { gap with blanks := gap.blanks ++ [c] }

def addBreak (gap : Gap) (c : Char) : Gap :=
  { gap with blanks := [], lineEnded := true, breaks := gap.breaks ++ [c] }

/-- The text that a gap stands for: its blanks, or a single space for one newline, or the line ends
after the first newline. -/
def text (gap : Gap) : List Char :=
  if !gap.lineEnded then gap.blanks
  else if gap.escaped then gap.breaks
  else match gap.breaks with
    | ['\n'] => [' ']
    | '\n' :: more => more
    | breaks => breaks

end Gap

structure Plain where
  text : List Char
  endsLine : Bool

namespace Plain

def endsInBrackets (c : Char) : Bool :=
  [',', '?', '[', ']', '\x7b', '\x7d'].contains c

/-- Can the text not go on with this word? A word behind a gap must not be a comment, the border of
a document or, outside of brackets, too far to the left. -/
def isOver (inBrackets : Bool) (margin : Int) (gap : Gap) (spot : Spot) (rest : List Spot) : Bool :=
  (!gap.isEmpty && (spot.char == '#' || Spot.atDocument (spot :: rest)
      || (!inBrackets && spot.mark.column < margin)))
    || (spot.char == ':' && Spot.divides rest)
    || (inBrackets && endsInBrackets spot.char)

/-- Reads on behind `taken`, the text so far in reverse, and a gap. Lines that the text goes on in
start at the margin or further to the right, and not with a tab. -/
def readOn (inBrackets : Bool) (margin : Int) : (taken : List Char) → Gap → List Spot →
    Except Obstacle (Found Plain)
  | taken, gap, [] => .ok ⟨⟨taken.reverse, gap.lineEnded⟩, []⟩
  | taken, gap, spot :: rest =>
    if spot.isBlank then
      if spot.char == '\t' && gap.lineEnded && spot.mark.column < margin then
        .error ⟨.misplacedTab, spot :: rest⟩
      else readOn inBrackets margin taken (gap.addBlank spot.char) rest
    else if spot.isBreak then readOn inBrackets margin taken (gap.addBreak spot.shownBreak) rest
    else if isOver inBrackets margin gap spot rest then
      .ok ⟨⟨taken.reverse, gap.lineEnded⟩, spot :: rest⟩
    else readOn inBrackets margin (spot.char :: (gap.text.reverse ++ taken)) {} rest

/-- Reads a text whose further lines are indented more than `indent`. -/
def read (inBrackets : Bool) (indent : Int) (spots : List Spot) : Except Obstacle (Found Plain) :=
  readOn inBrackets (indent + 1) [] {} spots

end Plain
end Treewalk.Yaml
