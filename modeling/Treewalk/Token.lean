import Treewalk.Text.Glyph

/-! Tokens: the words and marks of a program, each with the place where it starts. -/

namespace Treewalk

/-- A place in a source: bytes before it, its line counted from one, and its column in glyphs
counted from one. Tokens made outside a source may stand on any line. -/
structure Position where
  offset : Nat := 0
  line : Int := 0
  column : Nat := 0
  deriving DecidableEq, Repr, Inhabited

namespace Position

def start : Position := ⟨0, 1, 1⟩

/-- The place just behind one glyph. -/
def after (pos : Position) (glyph : Glyph) : Position :=
  let offset := pos.offset + glyph.bytes.length
  if glyph.isChar '\n' then ⟨offset, pos.line + 1, 1⟩ else ⟨offset, pos.line, pos.column + 1⟩

def afterAll (pos : Position) (glyphs : List Glyph) : Position :=
  glyphs.foldl after pos

end Position

inductive TokenKind where
  | eof | illegal
  | identifier | number | string
  | andWord | breakWord | classWord | continueWord | elseWord | falseWord | fnWord | forWord
  | ifWord | nullWord | orWord | returnWord | superWord | thisWord | trueWord | varWord | whileWord
  | assign | plusAssign | minusAssign | starAssign | slashAssign
  | equalEqual | bangEqual
  | plus | minus | plusPlus | minusMinus | star | slash
  | less | lessEqual | greater | greaterEqual
  | bang | question | colon
  | comma | dot | semicolon | leftParen | rightParen | leftBrace | rightBrace
  deriving DecidableEq, Repr, Inhabited

namespace TokenKind

def keywords : List TokenKind :=
  [andWord, breakWord, classWord, continueWord, elseWord, falseWord, fnWord, forWord, ifWord,
   nullWord, orWord, returnWord, superWord, thisWord, trueWord, varWord, whileWord]

def all : List TokenKind :=
  [eof, illegal, identifier, number, string] ++ keywords ++
  [assign, plusAssign, minusAssign, starAssign, slashAssign, equalEqual, bangEqual,
   plus, minus, plusPlus, minusMinus, star, slash, less, lessEqual, greater, greaterEqual,
   bang, question, colon, comma, dot, semicolon, leftParen, rightParen, leftBrace, rightBrace]

/-- A keyword or a mark is named by its own spelling. -/
def text : TokenKind → String
  | eof => "EOF"
  | illegal => "illegal"
  | identifier => "identifier"
  | number => "number"
  | string => "string"
  | andWord => "and"
  | breakWord => "break"
  | classWord => "class"
  | continueWord => "continue"
  | elseWord => "else"
  | falseWord => "false"
  | fnWord => "fn"
  | forWord => "for"
  | ifWord => "if"
  | nullWord => "null"
  | orWord => "or"
  | returnWord => "return"
  | superWord => "super"
  | thisWord => "this"
  | trueWord => "true"
  | varWord => "var"
  | whileWord => "while"
  | assign => "="
  | plusAssign => "+="
  | minusAssign => "-="
  | starAssign => "*="
  | slashAssign => "/="
  | equalEqual => "=="
  | bangEqual => "!="
  | plus => "+"
  | minus => "-"
  | plusPlus => "++"
  | minusMinus => "--"
  | star => "*"
  | slash => "/"
  | less => "<"
  | lessEqual => "<="
  | greater => ">"
  | greaterEqual => ">="
  | bang => "!"
  | question => "?"
  | colon => ":"
  | comma => ","
  | dot => "."
  | semicolon => ";"
  | leftParen => "("
  | rightParen => ")"
  | leftBrace => "\x7b"
  | rightBrace => "\x7d"

def ofIndex? : Int → Option TokenKind
  | .ofNat n => all[n]?
  | .negSucc _ => none

/-- The name of the kind with a given number; other numbers have no kind. -/
def nameOfIndex (index : Int) : String :=
  match ofIndex? index with
  | some kind => kind.text
  | none => "unknown"

def ofText? (name : String) : Option TokenKind :=
  all.find? (·.text == name)

def bytes (kind : TokenKind) : Bytes :=
  Bytes.ofString kind.text

def ofWord (word : Bytes) : TokenKind :=
  (keywords.find? (·.bytes == word)).getD identifier

end TokenKind

/-- The constant that a token spells. Most tokens spell none, and have `null`. Trees built outside a
source may hold constants of a kind that the language does not know, which are all `foreign`. -/
inductive Literal where
  | null
  | bool (value : Bool)
  | number (value : Float)
  | string (value : Bytes)
  | foreign
  deriving DecidableEq, Repr, Inhabited

structure Token where
  kind : TokenKind
  lexeme : Bytes
  value : Literal := .null
  pos : Position := {}
  deriving DecidableEq, Repr, Inhabited

namespace Token

/-- A token made outside a source, of which only the line is known. -/
def onLine (kind : TokenKind) (lexeme : Bytes) (line : Int) : Token :=
  { kind, lexeme, pos := { line } }

/-- An operator at the place of `token`, spelled as its kind is. -/
def operatorAt (kind : TokenKind) (token : Token) : Token :=
  { kind, lexeme := kind.bytes, pos := token.pos }

def endAt (pos : Position) : Token :=
  { kind := .eof, lexeme := [], pos }

def illegalAt (pos : Position) : Token :=
  { kind := .illegal, lexeme := [], pos }

def isEnd (token : Token) : Bool :=
  token.kind == .eof

end Token
end Treewalk
