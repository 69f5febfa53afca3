import Treewalk.Parser.Statement
import Treewalk.Token.Lexer

/-! Programs read from tokens or from a source text: the statements that could be read, and
everything that is wrong with the text. -/

namespace Treewalk

structure Program where
  statements : List Stmt
  errors : List Diagnostic

namespace Program

/-- The token that marks the end: the first one of its kind, or a new one at the place of the last
token. -/
def lastToken (tokens : List Token) : Token :=
  match tokens.find? Token.isEnd with
  | some token => token
  | none => .endAt ((tokens.getLast?.map Token.pos).getD {})

/-- No token is looked at more often than this, so the steps never run out. -/
def stepsFor (tokens : List Token) : Nat :=
  20 * (tokens.length + 1)

/-- Tokens behind the first one that marks an end do not count. -/
def ofTokens (tokens : List Token) : Program :=
  let before := tokens.takeWhile fun token => !token.isEnd
  match Parser.declarations false (stepsFor before) (lastToken tokens) before with
  | .done statements errors _ => ⟨statements, errors⟩
  | .failed errors _ => ⟨[], errors⟩
  | .exhausted => ⟨[], []⟩

/-- Lexical errors come before errors of grammar. -/
def ofSource (source : Bytes) : Program :=
  let scanned := scan source
  let program := ofTokens scanned.tokens
  ⟨program.statements, scanned.errors ++ program.errors⟩

end Program
end Treewalk
