import Treewalk.Yaml.BlockText

/-! What may stand in front of a node, or for one: the names of anchors and of references to them,
and tags. Also the directives in front of a document, which give a version or a handle for tags. -/

namespace Treewalk.Yaml

def encoded (text : List Char) : Bytes :=
  text.flatMap utf8

namespace Label

def isNameChar (c : Char) : Bool :=
  isDigit c || ('A' ≤ c && c ≤ 'Z') || ('a' ≤ c && c ≤ 'z') || c == '_' || c == '-'

/-- The characters of a tag besides those of names; a percent sign starts an escaped byte. -/
def isTagChar (c : Char) : Bool :=
  isNameChar c || [';', '/', '?', ':', '@', '&', '=', '+', '$', ',', '.', '!', '~', '*', '\'', '(',
    ')', '[', ']'].contains c

def word (spots : List Spot) : Found Bytes :=
  ⟨encoded ((spots.takeWhile (isNameChar ·.char)).map Spot.char),
    spots.dropWhile (isNameChar ·.char)⟩

def endsName : List Spot → Bool
  | [] => true
  | spot :: rest =>
    Spot.divides (spot :: rest) || ['?', ':', ',', ']', '\x7d', '%', '@', '\x60'].contains spot.char

def name (spots : List Spot) : Except Obstacle (Found Bytes) :=
  let word := word spots
  if word.value.isEmpty || !endsName word.rest then .error ⟨.badName, word.rest⟩ else .ok word

/-- The characters at the front that may stand in a tag, when so many more bytes of an escaped
character are to come. -/
def tagText : (awaited : Nat) → List Spot → Except Obstacle (Found Bytes)
  | 0, [] => .ok ⟨[], []⟩
  | _ + 1, [] => .error ⟨.badTagByte, []⟩
  | awaited, spot :: rest =>
    if spot.char == '%' then
      match rest with
      | high :: low :: behind =>
        match digit? 16 high.char, digit? 16 low.char with
        | some high, some low =>
          let byte := UInt8.ofNat (16 * high + low)
          if awaited = 0 then
            match Source.width? byte with
            | none => .error ⟨.badTagLeadingByte, spot :: rest⟩
            | some width => (tagText (width - 1) behind).map fun more =>
              { more with value := byte :: more.value }
          else if Source.isTrailing byte then
            (tagText (awaited - 1) behind).map fun more => { more with value := byte :: more.value }
          else .error ⟨.badTagTrailingByte, spot :: rest⟩
        | _, _ => .error ⟨.badTagByte, spot :: rest⟩
      | _ => .error ⟨.badTagByte, spot :: rest⟩
    else if awaited > 0 then .error ⟨.badTagByte, spot :: rest⟩
    else if isTagChar spot.char then
      (tagText 0 rest).map fun more => { more with value := utf8 spot.char ++ more.value }
    else .ok ⟨[], spot :: rest⟩

def someTagText (spots : List Spot) : Except Obstacle (Found Bytes) := do
  let found ← tagText 0 spots
  if found.value.isEmpty then throw ⟨.missingTag, found.rest⟩ else return found

/-- A handle behind its exclamation mark: a name that a second mark ends, or else just a name. -/
def handle (spots : List Spot) : Found (Bytes × Bool) :=
  let word := word spots
  match word.rest with
  | spot :: rest =>
    if spot.char == '!' then ⟨(word.value, true), rest⟩ else ⟨(word.value, false), spot :: rest⟩
  | [] => ⟨(word.value, false), []⟩

def exclamation : Bytes := utf8 '!'

def fullTag (spots : List Spot) : Except Obstacle (Found Sign) := do
  let text ← someTagText spots
  match text.rest with
  | spot :: rest =>
    if spot.char == '>' then return ⟨.tag [] text.value, rest⟩
    else throw ⟨.openTag, spot :: rest⟩
  | [] => throw ⟨.openTag, []⟩

/-- A tag behind its exclamation mark with a handle in front, or with the shortest one. The mark
alone is a tag, too. -/
def shortTag (spots : List Spot) : Except Obstacle (Found Sign) := do
  let handle := handle spots
  if handle.value.2 then
    let text ← someTagText handle.rest
    return ⟨.tag (exclamation ++ handle.value.1 ++ exclamation) text.value, text.rest⟩
  else
    let text ← tagText 0 handle.rest
    let suffix := handle.value.1 ++ text.value
    if suffix.isEmpty then return ⟨.tag [] exclamation, text.rest⟩
    else return ⟨.tag exclamation suffix, text.rest⟩

def tag (spots : List Spot) : Except Obstacle (Found Sign) := do
  let found ←
    match spots with
    | spot :: rest => if spot.char == '<' then fullTag rest else shortTag spots
    | [] => shortTag []
  if Spot.divides found.rest then return found else throw ⟨.badTagEnd, found.rest⟩

end Label

namespace Directive

/-- A part of a version number, of two digits at most. -/
def number (spots : List Spot) : Except Obstacle (Found Nat) :=
  let digits := (spots.takeWhile (isDigit ·.char)).map Spot.char
  let rest := spots.dropWhile (isDigit ·.char)
  if digits.length > 2 then .error ⟨.longVersion, rest⟩
  else if digits.isEmpty then .error ⟨.missingVersion, rest⟩
  else .ok ⟨digits.foldl (fun n c => 10 * n + (c.toNat - '0'.toNat)) 0, rest⟩

def version (spots : List Spot) : Except Obstacle (Found Sign) := do
  let major ← number (spots.dropWhile Spot.isBlank)
  match major.rest with
  | spot :: rest =>
    if spot.char == '.' then
      let minor ← number rest
      return ⟨.version major.value minor.value, minor.rest⟩
    else throw ⟨.badVersion, spot :: rest⟩
  | [] => throw ⟨.badVersion, []⟩

def tagHandle (spots : List Spot) : Except Obstacle (Found Bytes) :=
  match spots with
  | spot :: rest =>
    if spot.char == '!' then
      let handle := Label.handle rest
      if handle.value.2 then
        .ok ⟨Label.exclamation ++ handle.value.1 ++ Label.exclamation, handle.rest⟩
      else if handle.value.1.isEmpty then .ok ⟨Label.exclamation, handle.rest⟩
      else .error ⟨.missingExclamation, handle.rest⟩
    else .error ⟨.missingExclamation, spot :: rest⟩
  | [] => .error ⟨.missingExclamation, []⟩

def handle (spots : List Spot) : Except Obstacle (Found Sign) := do
  let name ← tagHandle (spots.dropWhile Spot.isBlank)
  if !name.rest.head?.any Spot.isBlank then throw ⟨.missingBlank, name.rest⟩
  let expansion ← Label.someTagText (name.rest.dropWhile Spot.isBlank)
  if Spot.divides expansion.rest then return ⟨.handle name.value expansion.value, expansion.rest⟩
  else throw ⟨.badTagEnd, expansion.rest⟩

def read (spots : List Spot) : Except Obstacle (Found Sign) := do
  let word := Label.word spots
  if word.value.isEmpty then throw ⟨.missingDirective, word.rest⟩
  if !Spot.divides word.rest then throw ⟨.badDirectiveName, word.rest⟩
  let found ←
    if word.value = .ofString "YAML" then version word.rest
    else if word.value = .ofString "TAG" then handle word.rest
    else throw ⟨.unknownDirective, word.rest⟩
  return { found with rest := ← BlockText.lineEnd found.rest }

end Directive
end Treewalk.Yaml
