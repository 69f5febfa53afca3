import Treewalk.Yaml.Quotation

/-! The part of a text that is in sight. It ends with a portion, and a look beyond its end moves it:
it then starts where the look does and ends with the portion that the look reaches. How far the
looks go depends on what is read. They matter in two ways. One that reaches a portion with a flaw
fails. And if a window starts with a byte order mark, each line in it is taken to start with one,
whatever its first character is. -/

namespace Treewalk.Yaml

def byteOrderMark : Char := '\uFEFF'

structure Window where
  /-- The number of characters in front of its end. One more counts for each look beyond the end of
  the text. -/
  limit : Nat := 0
  /-- Where the sound portions end that are not in sight yet. -/
  ahead : List Nat := []
  /-- The flaw behind the sound portions. -/
  flaw : Option Flaw := none
  /-- Does it start with a byte order mark? -/
  marked : Bool := false
  /-- Has a look failed? -/
  failed : Bool := false
  /-- Has a glance failed, so that reading can go on for a while? -/
  doubtful : Bool := false

namespace Window

/-- The limit that is needed to reach a goal, and the portions behind it. -/
def extend (goal : Nat) : (limit : Nat) → (ahead : List Nat) → Nat × List Nat
  | limit, [] => (limit + 1, [])
  | _, next :: ahead => if goal ≤ next then (next, ahead) else extend goal next ahead

/-- Looks at the first characters of a text that has its end at a place. -/
def look (finish : Mark) (count : Nat) (spots : List Spot) (window : Window) : Window :=
  let goal := (Spot.markAt finish spots).index + count
  if goal ≤ window.limit then window
  else
    let marked := spots.head?.any (·.char == byteOrderMark)
    if window.flaw.isSome && window.ahead.getLastD window.limit < goal then
      { window with marked, failed := true }
    else
      let (limit, ahead) := extend goal window.limit window.ahead
      { window with limit, ahead, marked }

/-- Looks for something that need not be there, and tells whether all of it is in sight. If not, the
characters up to the flaw are. -/
def glance (finish : Mark) (count : Nat) (spots : List Spot) (window : Window) : Window × Bool :=
  if window.failed then (window, false)
  else
    let seen := window.look finish count spots
    if seen.failed then
      ({ seen with limit := finish.index, ahead := [], failed := false, doubtful := true }, false)
    else (seen, true)

/-- Looks at one character after the other up to an index, and at a line end before that together
with what follows. -/
def along (finish : Mark) (stop : Nat) : List Spot → Window → Window
  | [], window => window.look finish 1 []
  | spot :: rest, window =>
    if stop ≤ spot.mark.index then window.look finish 1 (spot :: rest)
    else
      along finish stop rest
        (window.look finish (if spot.isBreak then 2 else 1) (spot :: rest))

/-- Where one is in a text that is plain or in quotes. -/
inductive Stage where
  | gap
  /-- Behind a character of a word. -/
  | word
  /-- Behind the character that starts an escape. -/
  | escape
  /-- So many digits of an escape are to come. -/
  | digits (awaited : Nat)
  deriving DecidableEq, Repr

/-- How many characters are looked at. A word may be the border of a document, so its start is
looked at together with the characters of that and the one behind them. -/
def Stage.reach (spot : Spot) : Stage → Nat
  | gap => if spot.isBreak then 2 else if spot.isBlank then 1 else 4
  | word => 2
  | escape | digits _ => if spot.isBreak then 2 else 1

def Stage.next (escapeSign : Option Char) (spot : Spot) : Stage → Stage
  | gap | word =>
    if spot.isBreak || spot.isBlank then gap
    else if escapeSign = some spot.char then escape
    else word
  | escape =>
    if spot.isBreak then gap
    else match Quotation.Escape.ofChar? spot.char with
      | some (.codePoint awaited) => digits awaited
      | _ => word
  | digits awaited => if awaited ≤ 1 then word else digits (awaited - 1)

/-- How many characters are looked at where a text ends or cannot go on; `last` if a gap is in
front. -/
def Stage.finalReach (last : Nat) : Stage → Nat
  | gap => last
  | word => 2
  | escape => 1
  | digits awaited => awaited

/-- Looks at a text up to an index. -/
def alongText (finish : Mark) (escapeSign : Option Char) (stop last : Nat) :
    Stage → List Spot → Window → Window
  | stage, [], window => window.look finish (stage.finalReach last) []
  | stage, spot :: rest, window =>
    if stop ≤ spot.mark.index then
      window.look finish (stage.finalReach (if spot.isBlank then 1 else last)) (spot :: rest)
    else
      alongText finish escapeSign stop last (stage.next escapeSign spot) rest
        (window.look finish (stage.reach spot) (spot :: rest))

end Window
end Treewalk.Yaml
