import Treewalk.Text.Bytes

/-! What can be wrong with the form of a YAML text, and how it is said. -/

namespace Treewalk.Yaml

/-- First come flaws of the bytes, then of single tokens, of their order on a line and at last of
the structure. -/
inductive Flaw where
  | badLeadingByte
  | cutCharacter
  | badTrailingByte
  | overlongCharacter
  | badCodePoint
  | cutUnit
  | looseSurrogate
  | cutPair
  | badPair
  | controlCharacter
  | strangeCharacter
  | misplacedTab
  | openQuotation
  | documentInQuotation
  | unknownEscape
  | badDigits
  | badEscapedCodePoint
  | zeroIndentation
  | tabInIndentation
  | badLineEnd
  | badName
  | missingTag
  | openTag
  | badTagEnd
  | badTagByte
  | badTagLeadingByte
  | badTagTrailingByte
  | missingExclamation
  | missingDirective
  | badDirectiveName
  | unknownDirective
  | missingVersion
  | badVersion
  | longVersion
  | missingBlank
  | missingColon
  | misplacedDash
  | misplacedKey
  | misplacedColon
  | tooDeep (limit : Nat)
  | missingDocument
  | secondVersion
  | otherVersion
  | secondHandle
  | unknownHandle
  | unknownAnchor (name : Bytes)
  | missingContent
  | missingKey
  | missingDash
  | openList
  | openTable
  deriving DecidableEq, Repr

def Flaw.message : Flaw → Bytes
  | badLeadingByte => .ofString "invalid leading UTF-8 octet"
  | cutCharacter => .ofString "incomplete UTF-8 octet sequence"
  | badTrailingByte => .ofString "invalid trailing UTF-8 octet"
  | overlongCharacter => .ofString "invalid length of a UTF-8 sequence"
  | badCodePoint => .ofString "invalid Unicode character"
  | cutUnit => .ofString "incomplete UTF-16 character"
  | looseSurrogate => .ofString "unexpected low surrogate area"
  | cutPair => .ofString "incomplete UTF-16 surrogate pair"
  | badPair => .ofString "expected low surrogate area"
  | controlCharacter => .ofString "control characters are not allowed"
  | strangeCharacter => .ofString "found character that cannot start any token"
  | misplacedTab => .ofString "found a tab character that violates indentation"
  | openQuotation => .ofString "found unexpected end of stream"
  | documentInQuotation => .ofString "found unexpected document indicator"
  | unknownEscape => .ofString "found unknown escape character"
  | badDigits => .ofString "did not find expected hexdecimal number"
  | badEscapedCodePoint => .ofString "found invalid Unicode character escape code"
  | zeroIndentation => .ofString "found an indentation indicator equal to 0"
  | tabInIndentation => .ofString "found a tab character where an indentation space is expected"
  | badLineEnd => .ofString "did not find expected comment or line break"
  | badName => .ofString "did not find expected alphabetic or numeric character"
  | missingTag => .ofString "did not find expected tag URI"
  | openTag => .ofString "did not find the expected '>'"
  | badTagEnd => .ofString "did not find expected whitespace or line break"
  | badTagByte => .ofString "did not find URI escaped octet"
  | badTagLeadingByte => .ofString "found an incorrect leading UTF-8 octet"
  | badTagTrailingByte => .ofString "found an incorrect trailing UTF-8 octet"
  | missingExclamation => .ofString "did not find expected '!'"
  | missingDirective => .ofString "could not find expected directive name"
  | badDirectiveName => .ofString "found unexpected non-alphabetical character"
  | unknownDirective => .ofString "found unknown directive name"
  | missingVersion => .ofString "did not find expected version number"
  | badVersion => .ofString "did not find expected digit or '.' character"
  | longVersion => .ofString "found extremely long version number"
  | missingBlank => .ofString "did not find expected whitespace"
  | missingColon => .ofString "could not find expected ':'"
  | misplacedDash => .ofString "block sequence entries are not allowed in this context"
  | misplacedKey => .ofString "mapping keys are not allowed in this context"
  | misplacedColon => .ofString "mapping values are not allowed in this context"
  | tooDeep limit => .ofString "exceeded max depth of " ++ .ofNat limit
  | missingDocument => .ofString "did not find expected <document start>"
  | secondVersion => .ofString "found duplicate %YAML directive"
  | otherVersion => .ofString "found incompatible YAML document"
  | secondHandle => .ofString "found duplicate %TAG directive"
  | unknownHandle => .ofString "found undefined tag handle"
  | unknownAnchor name => .ofString "unknown anchor '" ++ name ++ .ofString "' referenced"
  | missingContent => .ofString "did not find expected node content"
  | missingKey => .ofString "did not find expected key"
  | missingDash => .ofString "did not find expected '-' indicator"
  | openList => .ofString "did not find expected ',' or ']'"
  | openTable => .ofString "did not find expected ',' or '\x7d'"

/-- A flaw and the line that is told with it; line zero is not told. -/
structure Misform where
  line : Nat
  flaw : Flaw
  deriving DecidableEq, Repr

namespace Misform

def anywhere (flaw : Flaw) : Misform :=
  ⟨0, flaw⟩

/-- A flaw of the text that starts on one line and is found on another, both counted from zero. The
line told is the one that it starts on, or else the one that it is found on, counted from one; the
very first line is not told. -/
def inText (start found : Nat) (flaw : Flaw) : Misform :=
  if start ≠ 0 then ⟨start + 1, flaw⟩
  else if found ≠ 0 then ⟨found + 1, flaw⟩
  else ⟨0, flaw⟩

/-- A flaw of the structure that starts on one line and is found on another. Here the line told is
the one above, and again the first line is not told. -/
def inStructure (start found : Nat) (flaw : Flaw) : Misform :=
  ⟨if start ≠ 0 then start else found, flaw⟩

def message (misform : Misform) : Bytes :=
  if misform.line = 0 then misform.flaw.message
  else .ofString "line " ++ .ofNat misform.line ++ .ofString ": " ++ misform.flaw.message

end Misform
end Treewalk.Yaml
