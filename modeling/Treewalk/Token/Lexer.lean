import Treewalk.Diagnostic
import Treewalk.Decimal.Binary
import Treewalk.Text.Blank
import Treewalk.Text.Letter

/-! From glyphs to tokens. A source is first cut into pieces, each a blank, a comment, a token or
something that is none of these; what a piece is depends on its glyphs alone. Tokens and errors
then get their places by counting through the pieces. -/

namespace Treewalk

/-- What a piece of source is. -/
inductive Finding where
  | blank
  | token (kind : TokenKind) (value : Literal)
  /-- A byte that belongs to no character, so many bytes behind the start of the piece. -/
  | badByte (distance : Nat)
  | badNumber
  | badCharacter (c : Char)
  | openString
  | openComment
  deriving DecidableEq, Repr

structure Piece where
  glyphs : List Glyph
  finding : Finding
  deriving DecidableEq, Repr

namespace Lexer

def isDigit (c : Char) : Bool :=
  '0' ≤ c && c ≤ '9'

def isWordStart (c : Char) : Bool :=
  Text.isLetter c || c == '_'

def isWordPart (c : Char) : Bool :=
  isWordStart c || isDigit c

def runLength (property : Char → Bool) (glyphs : List Glyph) : Nat :=
  (glyphs.takeWhile (Glyph.satisfies property)).length

def lineLength : List Glyph → Nat
  | [] => 0
  | glyph :: rest => if glyph.isChar '\n' then 1 else lineLength rest + 1

/-- The length of a block comment behind its opening mark, if it is closed. -/
def commentLength? : List Glyph → Option Nat
  | [] => none
  | .char '*' :: .char '/' :: _ => some 2
  | _ :: rest => (commentLength? rest).map (· + 1)

/-- A string literal behind its opening quote. -/
structure Quotation where
  /-- Glyphs up to and with the closing quote. -/
  length : Nat
  text : List Char
  /-- Bytes before the first stray byte. -/
  badByte : Option Nat
  deriving DecidableEq, Repr

/-- What a backslash makes of the character behind it. -/
def unescape : Char → Char
  | 'n' => '\n'
  | 't' => '\t'
  | c => c

/-- Puts a glyph in front of a quotation that shows it as `c`, behind `skipped` other glyphs. -/
def Quotation.push (quotation : Quotation) (skipped : List Glyph) (glyph : Glyph) (c : Char) :
    Quotation where
  length := quotation.length + skipped.length + 1
  text := c :: quotation.text
  badByte :=
    let before := (Glyph.encode skipped).length
    match glyph with
    | .stray _ => some before
    | .char _ => quotation.badByte.map (· + before + glyph.bytes.length)

/-- The string literal that ends at the first quote without a backslash, if there is one. -/
def quotation? : List Glyph → Option Quotation
  | [] => none
  | .char '"' :: _ => some ⟨1, [], none⟩
  | .char '\\' :: glyph :: rest =>
    (quotation? rest).map (·.push [.char '\\'] glyph (unescape glyph.shown))
  | glyph :: rest => (quotation? rest).map (·.push [] glyph glyph.shown)

def digitValue : Glyph → Nat
  | .char c => c.toNat - '0'.toNat
  | .stray _ => 0

/-- The number whose decimal digits are `whole` and, behind the point, `fraction`, rounded to the
nearest float. -/
def numberValue (whole fraction : List Glyph) : Float :=
  let digits := (whole ++ fraction).foldl (fun n glyph => 10 * n + digitValue glyph) 0
  Float.ofScientific digits true fraction.length

def numberFinding (whole fraction : List Glyph) : Finding :=
  let value := numberValue whole fraction
  match Decimal.Reading.ofFloat value with
  | .finite .. => .token .number (.number value)
  | _ => .badNumber

/-- A number whose first digit is `glyph`. A point belongs to it only in front of another digit. -/
def number (glyph : Glyph) (rest : List Glyph) : Finding × Nat :=
  let whole := runLength isDigit rest
  let fraction :=
    match rest.drop whole with
    | .char '.' :: rest => runLength isDigit rest
    | _ => 0
  if fraction = 0 then
    (numberFinding (glyph :: rest.take whole) [], whole)
  else
    (numberFinding (glyph :: rest.take whole) ((rest.drop (whole + 1)).take fraction),
      whole + 1 + fraction)

def word (glyph : Glyph) (rest : List Glyph) : Finding × Nat :=
  let length := runLength isWordPart rest
  (.token (.ofWord (Glyph.encode (glyph :: rest.take length))) .null, length)

def quoted (rest : List Glyph) : Finding × Nat :=
  match quotation? rest with
  | none => (.openString, rest.length)
  | some quotation =>
    match quotation.badByte with
    | none => (.token .string (.string (quotation.text.flatMap utf8)), quotation.length)
    | some before => (.badByte (before + 1), quotation.length)

def doubleMark : Char → Char → Option TokenKind
  | '+', '+' => some .plusPlus
  | '+', '=' => some .plusAssign
  | '-', '-' => some .minusMinus
  | '-', '=' => some .minusAssign
  | '*', '=' => some .starAssign
  | '/', '=' => some .slashAssign
  | '=', '=' => some .equalEqual
  | '!', '=' => some .bangEqual
  | '<', '=' => some .lessEqual
  | '>', '=' => some .greaterEqual
  | '&', '&' => some .andWord
  | '|', '|' => some .orWord
  | _, _ => none

def singleMark : Char → Option TokenKind
  | '+' => some .plus
  | '-' => some .minus
  | '*' => some .star
  | '/' => some .slash
  | '(' => some .leftParen
  | ')' => some .rightParen
  | '\x7b' => some .leftBrace
  | '\x7d' => some .rightBrace
  | ',' => some .comma
  | '.' => some .dot
  | ';' => some .semicolon
  | '?' => some .question
  | ':' => some .colon
  | '=' => some .assign
  | '!' => some .bang
  | '<' => some .less
  | '>' => some .greater
  | _ => none

/-- A mark is as long as it can be. -/
def mark (c : Char) (rest : List Glyph) : Finding × Nat :=
  let double :=
    match rest with
    | .char d :: _ => doubleMark c d
    | _ => none
  match double, singleMark c with
  | some kind, _ => (.token kind .null, 1)
  | none, some kind => (.token kind .null, 0)
  | none, none => (.badCharacter c, 0)

/-- What the piece is that starts with `glyph`, and how many of the glyphs after it belong to
it. -/
def classify (glyph : Glyph) (rest : List Glyph) : Finding × Nat :=
  match glyph with
  | .stray _ => (.badByte 0, 0)
  | .char c =>
    match c, rest with
    | '/', .char '/' :: rest => (.blank, lineLength rest + 1)
    | '/', .char '*' :: rest =>
      match commentLength? rest with
      | some length => (.blank, length + 1)
      | none => (.openComment, rest.length + 1)
    | c, rest =>
      if Text.isBlank c then (.blank, 0)
      else if isWordStart c then word glyph rest
      else if isDigit c then number glyph rest
      else if c == '"' then quoted rest
      else mark c rest

/-- Cuts a source into its pieces, from left to right. -/
def pieces : List Glyph → List Piece
  | [] => []
  | glyph :: rest =>
    let (finding, length) := classify glyph rest
    ⟨glyph :: rest.take length, finding⟩ :: pieces (rest.drop length)
termination_by glyphs => glyphs.length
decreasing_by simp only [List.length_drop, List.length_cons]; omega

end Lexer

/-- The tokens of a source, the last of which marks its end, and its lexical errors. -/
structure Scan where
  tokens : List Token
  errors : List Diagnostic
  deriving DecidableEq, Repr

namespace Scan

def addToken (token : Token) (scan : Scan) : Scan :=
  { scan with tokens := token :: scan.tokens }

def addError (token : Token) (defect : Defect) (incomplete : Bool) (scan : Scan) : Scan :=
  { scan with errors := { token, defect, lexical := true, incomplete } :: scan.errors }

/-- Adds what a piece between two places contributes to a scan. An error points to the start of its
piece, except that an open comment is missed at the end. -/
def add (piece : Piece) (start stop : Position) (scan : Scan) : Scan :=
  let lexeme := Glyph.encode piece.glyphs
  match piece.finding with
  | .blank => scan
  | .token kind value => scan.addToken { kind, lexeme, value, pos := start }
  | .badByte distance =>
    scan.addError (.illegalAt start) (.invalidByte (start.offset + distance)) false
  | .badNumber => scan.addError (.illegalAt start) (.invalidNumber lexeme) false
  | .badCharacter c => scan.addError (.illegalAt start) (.unexpectedCharacter c) false
  | .openString => scan.addError (.illegalAt start) .unterminatedString true
  | .openComment => scan.addError (.endAt stop) .unterminatedComment true

def ofPieces (start : Position) : List Piece → Scan
  | [] => { tokens := [.endAt start], errors := [] }
  | piece :: rest =>
    let stop := start.afterAll piece.glyphs
    (ofPieces stop rest).add piece start stop

end Scan

def scan (source : Bytes) : Scan :=
  .ofPieces .start (Lexer.pieces (Glyph.decode source))

end Treewalk
