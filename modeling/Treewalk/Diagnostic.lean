import Treewalk.Token

/-! What can be wrong with the text of a program, and how it is reported. -/

namespace Treewalk

/-- What a program should have held at the place of an error. -/
inductive Expectation where
  | variableName
  | semicolonAfterVariable
  | functionName
  | parenAfterFunctionName
  | parameterName
  | parenAfterParameters
  | braceBeforeBody
  | braceAfterBlock
  | semicolonAfterBreak
  | semicolonAfterContinue
  | parenAfterFor
  | semicolonAfterCondition
  | parenAfterForClauses
  | parenAfterIf
  | parenAfterIfCondition
  | parenAfterWhile
  | parenAfterWhileCondition
  | semicolonAfterReturn
  | semicolonAfterExpression
  | colonAfterBranch
  | parenAfterArguments
  | parenAfterExpression
  | expression
  deriving DecidableEq, Repr

def Expectation.text : Expectation → String
  | variableName => "variable name"
  | semicolonAfterVariable => "';' after variable declaration"
  | functionName => "function name"
  | parenAfterFunctionName => "'(' after function name"
  | parameterName => "parameter name"
  | parenAfterParameters => "')' after parameters"
  | braceBeforeBody => "'\x7b' before function body"
  | braceAfterBlock => "'\x7d' after block"
  | semicolonAfterBreak => "';' after 'break'"
  | semicolonAfterContinue => "';' after 'continue'"
  | parenAfterFor => "'(' after 'for'"
  | semicolonAfterCondition => "';' after loop condition"
  | parenAfterForClauses => "')' after for clauses"
  | parenAfterIf => "'(' after 'if'"
  | parenAfterIfCondition => "')' after if condition"
  | parenAfterWhile => "'(' after 'while'"
  | parenAfterWhileCondition => "')' after while condition"
  | semicolonAfterReturn => "';' after return value"
  | semicolonAfterExpression => "';' after expression"
  | colonAfterBranch => "':' after '?' branch"
  | parenAfterArguments => "')' after arguments"
  | parenAfterExpression => "')' after expression"
  | expression => "expression"

inductive Defect where
  | invalidByte (offset : Nat)
  | invalidNumber (lexeme : Bytes)
  | unexpectedCharacter (c : Char)
  | unterminatedString
  | unterminatedComment
  | expected (what : Expectation)
  | identifierAfter (operator : Bytes)
  | tooManyParameters
  | tooManyArguments
  | invalidTarget
  | classDeclaration
  | unsupportedWord (word : Bytes)
  | custom (message : Bytes)
  deriving DecidableEq, Repr

def maxArguments : Nat := 255

namespace Defect

def message : Defect → Bytes
  | invalidByte offset =>
    .ofString "Invalid UTF-8 encoding at byte " ++ .ofNat offset ++ .ofString "."
  | invalidNumber lexeme =>
    .ofString "Invalid number literal '" ++ lexeme ++ .ofString "'."
  | unexpectedCharacter c =>
    .ofString "Unexpected character '" ++ utf8 c ++ .ofString "'."
  | unterminatedString => .ofString "Unterminated string."
  | unterminatedComment => .ofString "Unterminated block comment."
  | expected what => .ofString "Expected " ++ .ofString what.text ++ .ofString "."
  | identifierAfter operator =>
    .ofString "Expected identifier after '" ++ operator ++ .ofString "'."
  | tooManyParameters =>
    .ofString "Can't have more than " ++ .ofNat maxArguments ++ .ofString " parameters."
  | tooManyArguments =>
    .ofString "Can't have more than " ++ .ofNat maxArguments ++ .ofString " arguments."
  | invalidTarget => .ofString "Invalid assignment target."
  | classDeclaration => .ofString "Classes are not supported."
  | unsupportedWord word => .ofString "'" ++ word ++ .ofString "' is not supported."
  | custom message => message

end Defect

/-- An error in a source text, at the token where it was found. A lexical error is reported by its
line only. An incomplete one arose because the input ended too early. -/
structure Diagnostic where
  token : Token
  defect : Defect
  lexical : Bool := false
  incomplete : Bool := false
  deriving DecidableEq, Repr

namespace Diagnostic

/-- An error of grammar at `token`; at the end of the input, more input might mend it. -/
def grammar (token : Token) (defect : Defect) : Diagnostic :=
  { token, defect, incomplete := token.isEnd }

def message (error : Diagnostic) : Bytes :=
  error.defect.message

def line (error : Diagnostic) : Int :=
  error.token.pos.line

def whereabouts (error : Diagnostic) : Bytes :=
  if error.lexical then []
  else if error.token.isEnd then .ofString " at end"
  else .ofString " at '" ++ error.token.lexeme ++ .ofString "'"

def text (error : Diagnostic) : Bytes :=
  .ofString "[line " ++ .ofInt error.line ++ .ofString "] Error" ++ error.whereabouts
    ++ .ofString ": " ++ error.message

def listText : List Diagnostic → Bytes
  | [] => .ofString "no errors"
  | errors => Bytes.joinWith Bytes.newline (errors.map text)

def anyIncomplete (errors : List Diagnostic) : Bool :=
  errors.any (·.incomplete)

end Diagnostic
end Treewalk
