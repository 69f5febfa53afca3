import Treewalk.Diagnostic
import Treewalk.Tree

/-! Reading tokens with recovery. A parser takes tokens from the front of a list and yields a value,
or fails; either way it may report errors, which come out in the order in which they were found.
The token that marks the end of the input stands behind the list and is never taken. -/

namespace Treewalk

/-- What became of a parser. `exhausted` means that it ran out of the steps that it was given. -/
inductive Parsed (α : Type) where
  | done (value : α) (errors : List Diagnostic) (rest : List Token)
  | failed (errors : List Diagnostic) (rest : List Token)
  | exhausted

/-- Puts errors that were reported before in front of those of an outcome. -/
def Parsed.reportedAfter {α : Type} (errors : List Diagnostic) : Parsed α → Parsed α
  | done value later rest => done value (errors ++ later) rest
  | failed later rest => failed (errors ++ later) rest
  | exhausted => exhausted

def Parser (α : Type) : Type :=
  (last : Token) → List Token → Parsed α

namespace Parser

def succeed {α : Type} (value : α) : Parser α :=
  fun _ tokens => .done value [] tokens

def andThen {α β : Type} (first : Parser α) (next : α → Parser β) : Parser β :=
  fun last tokens =>
    match first last tokens with
    | .done value errors rest => (next value last rest).reportedAfter errors
    | .failed errors rest => .failed errors rest
    | .exhausted => .exhausted

instance : Monad Parser where
  pure := succeed
  bind := andThen

def outOfSteps {α : Type} : Parser α :=
  fun _ _ => .exhausted

/-- The next token, which stays where it is. -/
def peek : Parser Token :=
  fun last tokens => .done (tokens.headD last) [] tokens

def nextIs (kinds : List TokenKind) : Parser Bool :=
  fun _ tokens =>
    match tokens with
    | token :: _ => .done (kinds.contains token.kind) [] tokens
    | [] => .done false [] []

def atEnd : Parser Bool :=
  fun _ tokens => .done tokens.isEmpty [] tokens

/-- Takes the next token if it is of one of these kinds. -/
def accept (kinds : List TokenKind) : Parser (Option Token) :=
  fun _ tokens =>
    match tokens with
    | token :: rest =>
      if kinds.contains token.kind then .done (some token) [] rest else .done none [] tokens
    | [] => .done none [] []

/-- Reports an error and goes on. -/
def report (token : Token) (defect : Defect) : Parser Unit :=
  fun _ tokens => .done () [.grammar token defect] tokens

/-- Reports an error and gives up. -/
def fail {α : Type} (token : Token) (defect : Defect) : Parser α :=
  fun _ tokens => .failed [.grammar token defect] tokens

/-- Takes a token of the given kind, or fails at the next token. -/
def expect (kind : TokenKind) (defect : Defect) : Parser Token := do
  match ← accept [kind] with
  | some token => return token
  | none => fail (← peek) defect

/-- Reports the next token if it would be one more than a list may hold. -/
def checkCount (count : Nat) (defect : Defect) : Parser Unit := do
  let token ← peek
  if count < maxArguments then return () else report token defect

end Parser
end Treewalk
