import Treewalk.Yaml.Label
import Treewalk.Yaml.Window

/-! Tokens one after the other. They are read ahead only as far as needed. That a token is part of a
key is known only at the colon behind it, so a token that may start a key waits in a queue until
the colon is there or can no longer come. Each level of brackets has a slot for the last such token.
Brackets in which no key was possible do not wait themselves: closing them gives up waiting for the
last number of their slot, which is their own. Outside of brackets collections are told by
indentation: a token further to the right than those around it starts one, and one further to the
left ends some. -/

namespace Treewalk.Yaml

/-- The last token of a level of brackets that may turn out to start a key. -/
structure KeySlot where
  mark : Mark := {}
  /-- The number of the token. -/
  number : Nat := 0
  /-- Can it be nothing else? -/
  required : Bool := false
  /-- Is it still possible? -/
  possible : Bool := false

structure Stream where
  spots : List Spot
  finish : Mark
  window : Window
  /-- The column of the innermost collection told by indentation, and those of the ones around
  it. -/
  indent : Int := -1
  outerIndents : List Int := []
  /-- May a key start here? -/
  keyAllowed : Bool := true
  /-- The slot of the innermost brackets, and those of the brackets around them. -/
  slot : KeySlot := {}
  outerSlots : List KeySlot := []
  /-- The numbers of tokens that may wait for a colon, each with the level of brackets whose slot
  tells whether to wait. -/
  waiting : List (Nat × Nat) := []
  /-- The tokens read ahead, and how many there have been before them. -/
  queue : List Token := []
  taken : Nat := 0

namespace Stream

def ofSource (source : Source) : Stream where
  spots := source.spots
  finish := source.finish
  window := { ahead := source.portionEnds, flaw := source.defect }
  queue := [⟨0, .start⟩]

def maxDepth : Nat := 10000

/-- How many characters behind its start the colon of a key may stand. -/
def keyReach : Nat := 1024

def inBrackets (stream : Stream) : Bool :=
  !stream.outerSlots.isEmpty

def markOf (stream : Stream) (rest : List Spot) : Mark :=
  Spot.markAt stream.finish rest

def mark (stream : Stream) : Mark :=
  stream.markOf stream.spots

def length (stream : Stream) : Nat :=
  stream.finish.index - stream.mark.index

def look (stream : Stream) (count : Nat) : Stream :=
  { stream with window := stream.window.look stream.finish count stream.spots }

/-- The window when all has been looked at up to a place. -/
def windowAlong (stream : Stream) (rest : List Spot) : Window :=
  stream.window.along stream.finish (stream.markOf rest).index stream.spots

def goTo (stream : Stream) (rest : List Spot) : Stream :=
  { stream with spots := rest, window := stream.windowAlong rest }

def check (stream : Stream) : Except Misform Stream :=
  match stream.window.failed, stream.window.flaw with
  | true, some flaw => .error (.anywhere flaw)
  | _, _ => .ok stream

def checkDoubt (stream : Stream) : Except Misform Unit :=
  match stream.window.doubtful, stream.window.flaw with
  | true, some flaw => .error (.anywhere flaw)
  | _, _ => .ok ()

/-- Passes over one character. Even if it is a line end, the line goes on behind it. -/
def passOver (stream : Stream) : Stream :=
  let mark := stream.mark
  let rest := Source.place ⟨mark.index + 1, mark.line, mark.column + 1⟩
    ((stream.spots.flatMap Spot.chars).drop 1)
  { stream with spots := rest.spots, finish := rest.finish }

def misform (stream : Stream) (start : Mark) (flaw : Flaw) : Misform :=
  .inText start.line stream.mark.line flaw

def push (stream : Stream) (sign : Sign) (rest : List Spot) : Stream :=
  { stream with spots := rest, queue := stream.queue ++ [⟨stream.mark.line, sign⟩] }

def nextNumber (stream : Stream) : Nat :=
  stream.taken + stream.queue.length

/-- Puts a token in front of the one with a number, or at the end if that one is taken. -/
def insertBefore (stream : Stream) (number : Nat) (token : Token) : Stream :=
  if number < stream.taken then { stream with queue := stream.queue ++ [token] }
  else
    let (before, behind) := stream.queue.splitAt (number - stream.taken)
    { stream with queue := before ++ token :: behind }

/-- Is the colon of a key too far away, or not on its line? -/
def isBeyond (stream : Stream) (slot : KeySlot) : Bool :=
  slot.mark.line < stream.mark.line || slot.mark.index + keyReach < stream.mark.index

/-- A slot is given up once its colon can no longer come. -/
def checkSlot (stream : Stream) (slot : KeySlot) : Except Misform KeySlot :=
  if slot.possible && stream.isBeyond slot then
    if slot.required then .error (stream.misform slot.mark .missingColon)
    else .ok { slot with possible := false }
  else .ok slot

def stopWaiting (stream : Stream) (number : Nat) : Stream :=
  { stream with waiting := stream.waiting.filter (·.1 != number) }

def withoutKey (stream : Stream) : Stream :=
  { stream with slot := { stream.slot with possible := false } }.stopWaiting stream.slot.number

def dropKey (stream : Stream) : Except Misform Stream :=
  if !stream.slot.possible then .ok stream
  else if stream.slot.required then .error (stream.misform stream.slot.mark .missingColon)
  else .ok stream.withoutKey

/-- Notes that a key may start here, if that is so. -/
def noteKey (stream : Stream) : Except Misform Stream :=
  if stream.keyAllowed then do
    let slot : KeySlot :=
      { mark := stream.mark
        number := stream.nextNumber
        required := !stream.inBrackets && stream.indent == stream.mark.column
        possible := true }
    let stream ← stream.dropKey
    let waiting := (slot.number, stream.outerSlots.length) :: stream.waiting
    return { stream with slot, waiting }
  else .ok stream

/-- Ends the collections told by indentation that a column is too far to the left for. -/
def closeBlocks (stream : Stream) (column : Int) : Stream :=
  if stream.inBrackets then stream
  else
    let levels := stream.indent :: stream.outerIndents
    let ended := levels.takeWhile (column < ·)
    match levels.drop ended.length with
    | [] => stream
    | indent :: outerIndents =>
      { stream with
        indent, outerIndents
        queue := stream.queue ++ ended.map fun _ => ⟨stream.mark.line, .blockEnd⟩ }

/-- Starts a collection told by indentation at a place, unless there is one at that column. Its
token goes in front of the one with a number. -/
def openBlock (stream : Stream) (sign : Sign) (start : Mark) (number : Nat) :
    Except Misform Stream :=
  if stream.inBrackets || (start.column : Int) ≤ stream.indent then .ok stream
  else if stream.outerIndents.length < maxDepth then
    .ok ({ stream with indent := start.column, outerIndents := stream.indent :: stream.outerIndents
          : Stream }.insertBefore number ⟨start.line, sign⟩)
  else
    .error (stream.misform stream.slot.mark (.tooDeep maxDepth))

def openBlockHere (stream : Stream) (sign : Sign) : Except Misform Stream :=
  stream.openBlock sign stream.mark stream.nextNumber

def commentReach : Nat := 512

/-- Looks for a comment among the first characters, and tells whether they are in sight. -/
def glance (stream : Stream) (count : Nat) : Stream × Bool :=
  let (window, inSight) :=
    stream.window.glance stream.finish (min count commentReach) stream.spots
  ({ stream with window }, inSight)

def startsComment (spots : List Spot) : Bool :=
  spots.head?.any (·.char == '#')

def skipComment (stream : Stream) : Stream :=
  let behind := stream.spots.dropWhile Spot.isBlank
  let distance := (stream.markOf behind).index - stream.mark.index
  let (stream, inSight) := stream.glance (distance + 1)
  if inSight && distance < commentReach && startsComment behind then
    stream.goTo (behind.dropWhile (!·.isBreak))
  else stream

/-- Steps over the comment here and over those below it, with nothing but blanks and line ends of
one byte each between them. Tabs are blanks there. -/
def skipComments : (steps : Nat) → Stream → Stream
  | 0, stream => stream
  | steps + 1, stream =>
    let stream := stream.goTo (stream.spots.dropWhile (!·.isBreak))
    let behind := stream.spots.dropWhile fun spot =>
      spot.isBlank || (spot.isBreak && !spot.isWideBreak)
    let distance := (stream.markOf behind).index - stream.mark.index
    let count := if behind.head?.any Spot.isWideBreak then distance + 2 else distance + 1
    let (stream, inSight) := stream.glance count
    if inSight && distance < commentReach && startsComment behind then
      skipComments steps (stream.goTo behind)
    else stream

/-- Is it a blank here? A tab is none where a key may start. -/
def isGap (stream : Stream) (spot : Spot) : Bool :=
  spot.char == ' ' || (spot.char == '\t' && (stream.inBrackets || !stream.keyAllowed))

/-- At the start of a line, passes over what stands there if a byte order mark is taken to. -/
def skipMark (stream : Stream) : Stream :=
  if stream.mark.column = 0 && stream.window.marked then stream.passOver.look 1 else stream

/-- Steps over blanks, comments and line ends. A key may start behind a line end. -/
def skipGap : (steps : Nat) → Stream → Stream
  | 0, stream => stream
  | steps + 1, stream =>
    let stream := (stream.look 1).skipMark
    let stream := stream.goTo (stream.spots.dropWhile stream.isGap)
    let stream := if startsComment stream.spots then skipComments stream.length stream else stream
    match stream.spots with
    | [] => stream
    | spot :: rest =>
      if spot.isBreak then
        skipGap steps
          { stream.look 2 with
            spots := rest, keyAllowed := stream.keyAllowed || !stream.inBrackets }
      else stream

/-- What was found at the front, or a flaw of something that starts here. All is looked at up to
where it is clear what there is. -/
def demand {α : Type} (stream : Stream) (windowAt : List Spot → Window)
    (search : Except Obstacle (Found α)) : Except Misform (Found α × Window) := do
  match search with
  | .ok found => return (found, windowAt found.rest)
  | .error obstacle =>
    let _ ← { stream with window := windowAt obstacle.rest : Stream }.check
    throw (.inText stream.mark.line (stream.markOf obstacle.rest).line obstacle.flaw)

def closeAll (stream : Stream) : Except Misform Stream := do
  return { ← (stream.closeBlocks (-1)).dropKey with keyAllowed := false }

/-- The end of the text is at the start of a line. -/
def finishText (stream : Stream) : Except Misform Stream := do
  let finish : Mark :=
    if stream.finish.column = 0 then stream.finish
    else ⟨stream.finish.index, stream.finish.line + 1, 0⟩
  let stream ← { stream with finish : Stream }.closeAll
  return stream.push .finish []

def readDirective (stream : Stream) (rest : List Spot) : Except Misform Stream := do
  let stream ← stream.closeAll
  let (found, window) ← stream.demand stream.windowAlong (Directive.read rest)
  return { stream with window : Stream }.push found.value found.rest

def readDocumentSign (stream : Stream) (sign : Sign) : Except Misform Stream := do
  let stream ← stream.closeAll
  return stream.push sign (stream.spots.drop 3)

def readOpening (stream : Stream) (bracket : Bracket) (rest : List Spot) :
    Except Misform Stream := do
  let stream ← stream.noteKey
  if stream.outerSlots.length < maxDepth then
    let inside : Stream :=
      { stream with
        slot := { mark := stream.mark, number := stream.nextNumber }
        outerSlots := stream.slot :: stream.outerSlots
        keyAllowed := true }
    return (inside.push (.opening bracket) rest).skipComment
  else throw (stream.misform stream.mark (.tooDeep maxDepth))

def readClosing (stream : Stream) (bracket : Bracket) (rest : List Spot) :
    Except Misform Stream := do
  let stream ← stream.dropKey
  let outside : Stream :=
    match stream.outerSlots with
    | [] => { stream with keyAllowed := false }
    | slot :: outerSlots =>
      { stream.stopWaiting stream.slot.number with slot, outerSlots, keyAllowed := false }
  return (outside.push (.closing bracket) rest).skipComment

def readComma (stream : Stream) (rest : List Spot) : Except Misform Stream := do
  let stream := { ← stream.dropKey with keyAllowed := true }
  return (stream.push .comma rest).skipComment

/-- A comment behind a dash belongs to what follows. -/
def readDash (stream : Stream) (rest : List Spot) : Except Misform Stream := do
  if !stream.inBrackets && !stream.keyAllowed then
    throw (stream.misform stream.mark .misplacedDash)
  let stream ← (← stream.openBlockHere .listStart).dropKey
  return { stream with keyAllowed := true : Stream }.push .dash rest

def readQuestion (stream : Stream) (rest : List Spot) : Except Misform Stream := do
  if !stream.inBrackets && !stream.keyAllowed then
    throw (stream.misform stream.mark .misplacedKey)
  let stream ← (← stream.openBlockHere .tableStart).dropKey
  let stream := { stream with keyAllowed := !stream.inBrackets }
  return (stream.push .key rest).skipComment

def endKey (stream : Stream) : Except Misform Stream := do
  let slot := stream.slot
  let stream := stream.insertBefore slot.number ⟨slot.mark.line, .key⟩
  let stream ← stream.openBlock .tableStart slot.mark slot.number
  return { stream.withoutKey with keyAllowed := false }

def startValue (stream : Stream) : Except Misform Stream := do
  if !stream.inBrackets && !stream.keyAllowed then
    throw (stream.misform stream.mark .misplacedColon)
  let stream ← stream.openBlockHere .tableStart
  return { stream with keyAllowed := !stream.inBrackets }

def readColon (stream : Stream) (rest : List Spot) : Except Misform Stream := do
  let stream := { stream with slot := ← stream.checkSlot stream.slot }
  let stream ← if stream.slot.possible then stream.endKey else stream.startValue
  return (stream.push .value rest).skipComment

/-- A token that may start a key and after which none may start. -/
def readLabel (stream : Stream) (search : Except Obstacle (Found Sign)) :
    Except Misform Stream := do
  let stream := { ← stream.noteKey with keyAllowed := false }
  let (found, window) ← stream.demand stream.windowAlong search
  return ({ stream with window : Stream }.push found.value found.rest).skipComment

def readQuotation (stream : Stream) (escapeSign : Char) (rest : List Spot)
    (search : Except Obstacle (Found (List Char))) : Except Misform Stream := do
  let stream := { ← stream.noteKey with keyAllowed := false }
  let windowAt (stop : Nat) :=
    stream.window.alongText stream.finish (some escapeSign) stop 4 .gap rest
  let closing := search.toOption.map fun found => (stream.markOf found.rest).index - 1
  let (found, window) ← stream.demand
    (fun rest => windowAt (closing.getD (stream.markOf rest).index)) search
  return ({ stream with window : Stream }.push (.scalar false found.value) found.rest).skipComment

def readPlain (stream : Stream) : Except Misform Stream := do
  let stream ← stream.noteKey
  let windowAt (rest : List Spot) :=
    let behind := stream.markOf rest
    let last := if stream.inBrackets || stream.indent < behind.column then 4 else 1
    stream.window.alongText stream.finish none behind.index last .gap stream.spots
  let (found, window) ←
    stream.demand windowAt (Plain.read stream.inBrackets stream.indent stream.spots)
  let stream := { stream with keyAllowed := found.value.endsLine, window }
  let stream := stream.push (.scalar true found.value.text) found.rest
  return if found.value.endsLine then stream else stream.skipComment

def readBlockText (stream : Stream) (folds : Bool) (rest : List Spot) :
    Except Misform Stream := do
  let stream := { ← stream.dropKey with keyAllowed := true }
  let (found, window) ←
    stream.demand stream.windowAlong (BlockText.read folds stream.indent rest)
  return { stream with window : Stream }.push (.scalar false found.value) found.rest

def strange {α : Type} (stream : Stream) : Except Misform α :=
  .error (stream.misform stream.mark .strangeCharacter)

def asSign {α : Type} (sign : α → Sign) (search : Except Obstacle (Found α)) :
    Except Obstacle (Found Sign) :=
  search.map fun found => ⟨sign found.value, found.rest⟩

def readToken (stream : Stream) (first : Char) (rest : List Spot) : Except Misform Stream :=
  match first with
  | '[' => stream.readOpening .square rest
  | ']' => stream.readClosing .square rest
  | '\x7b' => stream.readOpening .curly rest
  | '\x7d' => stream.readClosing .curly rest
  | ',' => stream.readComma rest
  | '-' => if Spot.divides rest then stream.readDash rest else stream.readPlain
  | '?' =>
    if stream.inBrackets || Spot.divides rest then stream.readQuestion rest else stream.readPlain
  | ':' =>
    if stream.inBrackets || Spot.divides rest then stream.readColon rest else stream.readPlain
  | '*' => stream.readLabel (asSign .reference (Label.name rest))
  | '&' => stream.readLabel (asSign .anchor (Label.name rest))
  | '!' => stream.readLabel (Label.tag rest)
  | '\'' => stream.readQuotation '\'' rest (Quotation.single [] {} rest)
  | '"' => stream.readQuotation '\\' rest (Quotation.double .outside [] {} rest)
  | '|' => if stream.inBrackets then stream.strange else stream.readBlockText false rest
  | '>' => if stream.inBrackets then stream.strange else stream.readBlockText true rest
  | c => if ['\t', '#', '%', '@', '\x60'].contains c then stream.strange else stream.readPlain

def readHere (stream : Stream) : Except Misform Stream :=
  match stream.spots with
  | [] => stream.finishText
  | spot :: rest =>
    if spot.mark.column = 0 && spot.char == '%' then stream.readDirective rest
    else if Spot.isTriple '-' stream.spots then stream.readDocumentSign .documentStart
    else if Spot.isTriple '.' stream.spots then stream.readDocumentSign .documentEnd
    else stream.readToken spot.char rest

/-- Reads one more token, which takes a look at the four characters that it starts with and at the
one behind it. -/
def readOne (stream : Stream) : Except Misform Stream := do
  let stream ← ((skipGap (stream.length + 1) (stream.look 1)).look 4).check
  (← (stream.closeBlocks stream.mark.column).readHere).check

def checkLevel (stream : Stream) (level : Nat) : Except Misform (KeySlot × Stream) := do
  let depth := stream.outerSlots.length
  if level = depth then
    let slot ← stream.checkSlot stream.slot
    return (slot, { stream with slot })
  else
    let place := depth - 1 - level
    let slot ← stream.checkSlot ((stream.outerSlots[place]?).getD {})
    if slot.possible then return (slot, stream)
    else return (slot, { stream with outerSlots := stream.outerSlots.set place slot })

/-- Is it clear what the first token of the queue is, and are two more there? -/
def isSettled (stream : Stream) : Except Misform (Bool × Stream) := do
  match stream.queue with
  | _ :: _ :: _ :: _ =>
    match stream.waiting.lookup stream.taken with
    | none => return (true, stream)
    | some level =>
      let (slot, stream) ← stream.checkLevel level
      return (!slot.possible, stream)
  | _ => return (false, stream)

/-- Reads tokens until the first one is settled. Each step takes something from the text, or is at
its end. -/
def readAhead : (steps : Nat) → Stream → Except Misform Stream
  | 0, stream => .ok stream
  | steps + 1, stream => do
    let (settled, stream) ← stream.isSettled
    if settled then return stream else readAhead steps (← stream.readOne)

/-- Makes sure that the first token of the queue is settled. -/
def settled (stream : Stream) : Except Misform Stream := do
  let (settled, stream) ← stream.isSettled
  if settled then return stream else readAhead (stream.length + 4) stream

def first (stream : Stream) : Token :=
  stream.queue.headD ⟨stream.mark.line, .finish⟩

def next (stream : Stream) : Stream :=
  { stream with
    waiting := stream.waiting.filter (stream.taken < ·.1)
    queue := stream.queue.tail
    taken := stream.taken + 1 }

end Stream
end Treewalk.Yaml
