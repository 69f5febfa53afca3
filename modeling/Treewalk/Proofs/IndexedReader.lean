import Treewalk.Parser.Statement

/-! The rules of the language read by number. A cursor counts the tokens that were taken and the blocks that
are open, and every token is looked up among all of them by its number. A number that no token has leads to an
outcome of its own, so that whatever never comes to it stays within the tokens. -/

namespace Treewalk

structure Cursor where
  tokens : Array Token
  current : Nat := 0
  blocks : Nat := 0
  errors : List Diagnostic := []

/-- A cursor before the first token. A mark of the end is put behind tokens that do not close with one. -/
def Cursor.start (tokens : List Token) : Cursor :=
  match tokens.getLast? with
  | none => { tokens := #[.endAt {}] }
  | some final =>
    if final.isEnd then { tokens := tokens.toArray }
    else { tokens := (tokens ++ [Token.endAt final.pos]).toArray }

def Cursor.next (cursor : Cursor) : Cursor :=
  { cursor with current := cursor.current + 1 }

/-- What became of a reader. `astray` means that it looked for a token before the first one or behind the last
one, and `exhausted` that it ran out of the steps that it was given. -/
inductive Read (α : Type) where
  | done (value : α) (cursor : Cursor)
  | failed (cursor : Cursor)
  | astray
  | exhausted

def Reader (α : Type) : Type :=
  Cursor → Read α

namespace Reader

open Treewalk.Parser (Level levels assignmentSigns assignedValue atom? statementStarts forLoop)

def succeed {α : Type} (value : α) : Reader α :=
  fun cursor => .done value cursor

def andThen {α β : Type} (first : Reader α) (next : α → Reader β) : Reader β :=
  fun cursor =>
    match first cursor with
    | .done value cursor => next value cursor
    | .failed cursor => .failed cursor
    | .astray => .astray
    | .exhausted => .exhausted

instance : Monad Reader where
  pure := succeed
  bind := andThen

def outOfSteps {α : Type} : Reader α :=
  fun _ => .exhausted

def lookUp (index : Nat) : Reader Token :=
  fun cursor =>
    match cursor.tokens[index]? with
    | some token => .done token cursor
    | none => .astray

def peek : Reader Token :=
  fun cursor => lookUp cursor.current cursor

def previous : Reader Token :=
  fun cursor =>
    match cursor.current with
    | 0 => .astray
    | taken + 1 => lookUp taken cursor

def atEnd : Reader Bool := do
  return (← peek).isEnd

def check (kind : TokenKind) : Reader Bool := do
  if ← atEnd then return false else return (← peek).kind == kind

def step : Reader Unit :=
  fun cursor => .done () cursor.next

/-- Takes the next token unless it marks the end, and looks back at the token that was taken last. -/
def advance : Reader Token := do
  if ← atEnd then previous
  else do
    step
    previous

def accept : (kinds : List TokenKind) → Reader (Option Token)
  | [] => return none
  | kind :: kinds => do
    if ← check kind then return some (← advance) else accept kinds

/-- Goes on behind a token of one of these kinds, or from where it stands if another token comes next. -/
def ifAccepted {α : Type} (kinds : List TokenKind) (taken : Token → Reader α) (otherwise : Reader α) : Reader α := do
  match ← accept kinds with
  | some token => taken token
  | none => otherwise

def report (token : Token) (defect : Defect) : Reader Unit :=
  fun cursor => .done () { cursor with errors := cursor.errors ++ [.grammar token defect] }

def fail {α : Type} (token : Token) (defect : Defect) : Reader α :=
  fun cursor => .failed { cursor with errors := cursor.errors ++ [.grammar token defect] }

def expect (kind : TokenKind) (defect : Defect) : Reader Token := do
  if ← check kind then advance else fail (← peek) defect

def checkCount (count : Nat) (defect : Defect) : Reader Unit := do
  if count < maxArguments then return () else report (← peek) defect

def increment (sign : Token) : Reader Expr := do
  let target ← expect .identifier (.identifierAfter sign.lexeme)
  let operator := if sign.kind == .minusMinus then .minus else .plus
  return .assign target
    (.binary (.name target) (.operatorAt operator sign) (.literal (.number 1.0) sign.pos))

def noExpression (token : Token) : Reader Expr :=
  if token.kind == .thisWord || token.kind == .superWord then
    fail token (.unsupportedWord token.lexeme)
  else
    fail token (.expected .expression)

def enclosed (value : Reader Expr) : Reader Expr := do
  let inner ← value
  let _ ← expect .rightParen (.expected .parenAfterExpression)
  return .group inner

mutual

def expression : (steps : Nat) → Reader Expr
  | 0 => outOfSteps
  | steps + 1 => do
    let left ← ternary steps
    match ← accept assignmentSigns with
    | none => return left
    | some sign => do
      let value ← expression steps
      match left with
      | .name target => return .assign target (assignedValue target sign value)
      | _ => do
        report sign .invalidTarget
        return left

def ternary : (steps : Nat) → Reader Expr
  | 0 => outOfSteps
  | steps + 1 => do
    let condition ← binary levels steps
    match ← accept [.question] with
    | none => return condition
    | some _ => do
      let first ← ternary steps
      let _ ← expect .colon (.expected .colonAfterBranch)
      let second ← ternary steps
      return .ternary condition first second

def binary : (levels : List Level) → (steps : Nat) → Reader Expr
  | _, 0 => outOfSteps
  | [], steps + 1 => unary steps
  | level :: tighter, steps + 1 => do
    let left ← binary tighter steps
    operands level tighter left steps

def operands (level : Level) (tighter : List Level) (left : Expr) : (steps : Nat) → Reader Expr
  | 0 => outOfSteps
  | steps + 1 => do
    match ← accept level.operators with
    | none => return left
    | some operator => do
      let right ← binary tighter steps
      operands level tighter (level.node left operator right) steps

def unary : (steps : Nat) → Reader Expr
  | 0 => outOfSteps
  | steps + 1 =>
    ifAccepted [.plusPlus, .minusMinus] increment <|
    ifAccepted [.bang, .minus] (fun sign => do
      let operand ← unary steps
      return .unary sign operand) <| do
    let callee ← primary steps
    calls callee steps

def calls (callee : Expr) : (steps : Nat) → Reader Expr
  | 0 => outOfSteps
  | steps + 1 => do
    match ← accept [.leftParen] with
    | none => return callee
    | some _ => do
      let found ← argumentList steps
      let paren ← expect .rightParen (.expected .parenAfterArguments)
      calls (.call callee paren found) steps

def argumentList : (steps : Nat) → Reader (List Expr)
  | 0 => outOfSteps
  | steps + 1 => do
    if ← check .rightParen then return [] else furtherArguments 0 steps

def furtherArguments (count : Nat) : (steps : Nat) → Reader (List Expr)
  | 0 => outOfSteps
  | steps + 1 => do
    checkCount count .tooManyArguments
    let argument ← expression steps
    match ← accept [.comma] with
    | none => return [argument]
    | some _ => do
      let rest ← furtherArguments (count + 1) steps
      return argument :: rest

def primary : (steps : Nat) → Reader Expr
  | 0 => outOfSteps
  | steps + 1 => do
    let token ← peek
    match atom? token with
    | some atom => do
      let _ ← advance
      return atom
    | none =>
      if token.kind == .leftParen then do
        let _ ← advance
        enclosed (expression steps)
      else noExpression token

end

def closesBlock : Reader Bool :=
  fun cursor => if 0 < cursor.blocks then check .rightBrace cursor else .done false cursor

def resume : (steps : Nat) → Reader Unit
  | 0 => outOfSteps
  | steps + 1 => do
    if ← atEnd then return ()
    else if ← closesBlock then return ()
    else if (← previous).kind == .semicolon then return ()
    else if statementStarts.contains (← peek).kind then return ()
    else do
      let _ ← advance
      resume steps

/-- Gives a loop as many steps as there are tokens. -/
def eachToken {α : Type} (loop : (steps : Nat) → Reader α) : Reader α :=
  fun cursor => loop cursor.tokens.size cursor

/-- Gets past the place where a declaration failed, but not past the end of a block. -/
def synchronize : Reader Unit := do
  if ← closesBlock then return ()
  else do
    let _ ← advance
    eachToken resume

def recover (declaration : Reader (Option Stmt)) : Reader (Option Stmt) :=
  fun cursor =>
    match declaration cursor with
    | .failed cursor => (do synchronize; return none : Reader (Option Stmt)) cursor
    | outcome => outcome

def dropBraces : (depth steps : Nat) → Reader Unit
  | 0, _ => return ()
  | _ + 1, 0 => outOfSteps
  | depth + 1, steps + 1 => do
    if ← atEnd then return ()
    else do
      let token ← advance
      if token.kind == .leftBrace then dropBraces (depth + 2) steps
      else if token.kind == .rightBrace then dropBraces depth steps
      else dropBraces (depth + 1) steps

def skipClass (word : Token) : Reader Unit := do
  report word .classDeclaration
  let _ ← accept [.identifier]
  match ← accept [.leftBrace] with
  | none => return ()
  | some _ => eachToken (dropBraces 1)

def initializer (value : Reader Expr) : Reader (Option Expr) := do
  match ← accept [.assign] with
  | none => return none
  | some _ => do
    let initial ← value
    return some initial

def variableDeclaration (value : Reader Expr) : Reader Stmt := do
  let name ← expect .identifier (.expected .variableName)
  let initial ← initializer value
  let _ ← expect .semicolon (.expected .semicolonAfterVariable)
  return .declare name initial

def expressionStatement (value : Reader Expr) : Reader Stmt := do
  let expr ← value
  let _ ← expect .semicolon (.expected .semicolonAfterExpression)
  return .expression expr

def optionalBefore (closer : TokenKind) (value : Reader Expr) : Reader (Option Expr) := do
  if ← check closer then return none
  else do
    let expr ← value
    return some expr

def returnStatement (word : Token) (value : Reader Expr) : Reader Stmt := do
  let result ← optionalBefore .semicolon value
  let _ ← expect .semicolon (.expected .semicolonAfterReturn)
  return .returnValue word result

def ifStatement (word : Token) (value : Reader Expr) (body : Reader Stmt) : Reader Stmt := do
  let _ ← expect .leftParen (.expected .parenAfterIf)
  let condition ← value
  let _ ← expect .rightParen (.expected .parenAfterIfCondition)
  let consequence ← body
  match ← accept [.elseWord] with
  | none => return .branch condition consequence none word.pos
  | some _ => do
    let alternative ← body
    return .branch condition consequence (some alternative) word.pos

def whileStatement (word : Token) (value : Reader Expr) (body : Reader Stmt) : Reader Stmt := do
  let _ ← expect .leftParen (.expected .parenAfterWhile)
  let condition ← value
  let _ ← expect .rightParen (.expected .parenAfterWhileCondition)
  let repeated ← body
  return .loop condition repeated none word.pos

def forInitializer (value : Reader Expr) : Reader (Option Stmt) :=
  ifAccepted [.semicolon] (fun _ => return none) <|
  ifAccepted [.varWord] (fun _ => do
    let initial ← variableDeclaration value
    return some initial) <| do
  let initial ← expressionStatement value
  return some initial

def forStatement (word : Token) (value : Reader Expr) (body : Reader Stmt) : Reader Stmt := do
  let _ ← expect .leftParen (.expected .parenAfterFor)
  let initial ← forInitializer value
  let condition ← optionalBefore .semicolon value
  let _ ← expect .semicolon (.expected .semicolonAfterCondition)
  let increment ← optionalBefore .rightParen value
  let _ ← expect .rightParen (.expected .parenAfterForClauses)
  let repeated ← body
  return forLoop word initial condition increment repeated

def furtherParameters (count : Nat) : (steps : Nat) → Reader (List Token)
  | 0 => outOfSteps
  | steps + 1 => do
    checkCount count .tooManyParameters
    let parameter ← expect .identifier (.expected .parameterName)
    match ← accept [.comma] with
    | none => return [parameter]
    | some _ => do
      let rest ← furtherParameters (count + 1) steps
      return parameter :: rest

def parameterList (steps : Nat) : Reader (List Token) := do
  if ← check .rightParen then return [] else furtherParameters 0 steps

/-- Counts one more block as open until the reader comes to an end, also when it fails. -/
def inBlock {α : Type} (reader : Reader α) : Reader α :=
  fun cursor =>
    match reader { cursor with blocks := cursor.blocks + 1 } with
    | .done value cursor => .done value { cursor with blocks := cursor.blocks - 1 }
    | .failed cursor => .failed { cursor with blocks := cursor.blocks - 1 }
    | outcome => outcome

def block (declarations : Reader (List Stmt)) : Reader (List Stmt) :=
  inBlock do
    let body ← declarations
    let _ ← expect .rightBrace (.expected .braceAfterBlock)
    return body

def functionDeclaration (steps : Nat) (declarations : Reader (List Stmt)) : Reader Stmt := do
  let name ← expect .identifier (.expected .functionName)
  let _ ← expect .leftParen (.expected .parenAfterFunctionName)
  let parameters ← parameterList steps
  let _ ← expect .rightParen (.expected .parenAfterParameters)
  let _ ← expect .leftBrace (.expected .braceBeforeBody)
  let body ← block declarations
  return .function name parameters body

def plainDeclaration (steps : Nat) (value : Reader Expr) (statement : Reader Stmt)
    (declarations : Reader (List Stmt)) : Reader (Option Stmt) :=
  ifAccepted [.varWord] (fun _ => do
    let stmt ← variableDeclaration value
    return some stmt) <|
  ifAccepted [.fnWord] (fun _ => do
    let stmt ← functionDeclaration steps declarations
    return some stmt) <|
  ifAccepted [.classWord] (fun word => do
    skipClass word
    return none) <| do
  let stmt ← statement
  return some stmt

def declarationsEnd (nested : Bool) : Reader Bool :=
  if nested then do
    if ← check .rightBrace then return true else atEnd
  else atEnd

mutual

def statement : (steps : Nat) → Reader Stmt
  | 0 => outOfSteps
  | steps + 1 =>
    ifAccepted [.forWord] (fun word => forStatement word (expression steps) (statement steps)) <|
    ifAccepted [.ifWord] (fun word => ifStatement word (expression steps) (statement steps)) <|
    ifAccepted [.whileWord] (fun word => whileStatement word (expression steps) (statement steps)) <|
    ifAccepted [.leftBrace] (fun brace => do
      let body ← block (declarations true steps)
      return .block body brace.pos) <|
    ifAccepted [.breakWord] (fun word => do
      let _ ← expect .semicolon (.expected .semicolonAfterBreak)
      return .breakLoop word) <|
    ifAccepted [.continueWord] (fun word => do
      let _ ← expect .semicolon (.expected .semicolonAfterContinue)
      return .continueLoop word) <|
    ifAccepted [.returnWord] (fun word => returnStatement word (expression steps)) <|
    expressionStatement (expression steps)

def declaration : (steps : Nat) → Reader (Option Stmt)
  | 0 => outOfSteps
  | steps + 1 =>
    recover (plainDeclaration steps (expression steps) (statement steps) (declarations true steps))

def declarations (nested : Bool) : (steps : Nat) → Reader (List Stmt)
  | 0 => outOfSteps
  | steps + 1 => do
    if ← declarationsEnd nested then return []
    else do
      let first ← declaration steps
      let rest ← declarations nested steps
      return first.toList ++ rest

end

def parse (steps : Nat) : Reader (List Stmt) :=
  declarations false steps

end Reader
end Treewalk
