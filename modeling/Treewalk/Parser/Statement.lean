import Treewalk.Parser.Expression

/-! Statements and declarations. A malformed declaration is reported and dropped, and reading goes
on at the next place where a statement is likely to start. -/

namespace Treewalk.Parser

def statementStarts : List TokenKind :=
  [.classWord, .fnWord, .varWord, .forWord, .ifWord, .whileWord, .returnWord, .breakWord,
   .continueWord]

/-- Inside a block a closing brace ends the block, whatever came before it. -/
def closesBlock (nested : Bool) (token : Token) : Bool :=
  nested && token.kind == .rightBrace

/-- Drops tokens behind `previous` up to a likely start of a statement. -/
def resume (nested : Bool) (previous : Token) : List Token → List Token
  | [] => []
  | token :: rest =>
    if closesBlock nested token || previous.kind == .semicolon
        || statementStarts.contains token.kind then
      token :: rest
    else resume nested token rest

/-- Drops the token at which a declaration failed and those up to a likely start of the next one.
The brace that closes a block is kept. -/
def synchronize (nested : Bool) : List Token → List Token
  | [] => []
  | token :: rest => if closesBlock nested token then token :: rest else resume nested token rest

/-- Turns a failed declaration into none. -/
def recover (nested : Bool) (declaration : Parser (Option Stmt)) : Parser (Option Stmt) :=
  fun last tokens =>
    match declaration last tokens with
    | .failed errors rest => .done none errors (synchronize nested rest)
    | outcome => outcome

/-- Drops tokens until `depth` open braces are closed. -/
def dropBraces : (depth : Nat) → List Token → List Token
  | 0, tokens => tokens
  | _ + 1, [] => []
  | depth + 1, token :: rest =>
    if token.kind == .leftBrace then dropBraces (depth + 2) rest
    else if token.kind == .rightBrace then dropBraces depth rest
    else dropBraces (depth + 1) rest

def skipBraces : Parser Unit :=
  fun _ tokens => .done () [] (dropBraces 1 tokens)

/-- Reports a class declaration and steps over its name and body. -/
def skipClass (word : Token) : Parser Unit := do
  report word .classDeclaration
  let _ ← accept [.identifier]
  match ← accept [.leftBrace] with
  | none => return ()
  | some _ => skipBraces

def initializer (value : Parser Expr) : Parser (Option Expr) := do
  match ← accept [.assign] with
  | none => return none
  | some _ => do
    let initial ← value
    return some initial

def variableDeclaration (value : Parser Expr) : Parser Stmt := do
  let name ← expect .identifier (.expected .variableName)
  let initial ← initializer value
  let _ ← expect .semicolon (.expected .semicolonAfterVariable)
  return .declare name initial

def expressionStatement (value : Parser Expr) : Parser Stmt := do
  let expr ← value
  let _ ← expect .semicolon (.expected .semicolonAfterExpression)
  return .expression expr

/-- An expression that may be left out in front of a token of kind `closer`. -/
def optionalBefore (closer : TokenKind) (value : Parser Expr) : Parser (Option Expr) := do
  if ← nextIs [closer] then return none
  else do
    let expr ← value
    return some expr

def returnStatement (word : Token) (value : Parser Expr) : Parser Stmt := do
  let result ← optionalBefore .semicolon value
  let _ ← expect .semicolon (.expected .semicolonAfterReturn)
  return .returnValue word result

def ifStatement (word : Token) (value : Parser Expr) (body : Parser Stmt) : Parser Stmt := do
  let _ ← expect .leftParen (.expected .parenAfterIf)
  let condition ← value
  let _ ← expect .rightParen (.expected .parenAfterIfCondition)
  let consequence ← body
  match ← accept [.elseWord] with
  | none => return .branch condition consequence none word.pos
  | some _ => do
    let alternative ← body
    return .branch condition consequence (some alternative) word.pos

def whileStatement (word : Token) (value : Parser Expr) (body : Parser Stmt) : Parser Stmt := do
  let _ ← expect .leftParen (.expected .parenAfterWhile)
  let condition ← value
  let _ ← expect .rightParen (.expected .parenAfterWhileCondition)
  let repeated ← body
  return .loop condition repeated none word.pos

def forInitializer (value : Parser Expr) : Parser (Option Stmt) := do
  match ← accept [.semicolon, .varWord] with
  | none => do
    let initial ← expressionStatement value
    return some initial
  | some token =>
    if token.kind == .varWord then do
      let initial ← variableDeclaration value
      return some initial
    else return none

/-- The loop that the clauses of a `for` stand for; a loop without a condition goes on for ever. -/
def forLoop (word : Token) (initial : Option Stmt) (condition increment : Option Expr)
    (body : Stmt) : Stmt :=
  let condition := condition.getD (.literal (.bool true) word.pos)
  let loop := Stmt.loop condition body (increment.map .expression) word.pos
  match initial with
  | some initial => .block [initial, loop] word.pos
  | none => loop

def forStatement (word : Token) (value : Parser Expr) (body : Parser Stmt) : Parser Stmt := do
  let _ ← expect .leftParen (.expected .parenAfterFor)
  let initial ← forInitializer value
  let condition ← optionalBefore .semicolon value
  let _ ← expect .semicolon (.expected .semicolonAfterCondition)
  let increment ← optionalBefore .rightParen value
  let _ ← expect .rightParen (.expected .parenAfterForClauses)
  let repeated ← body
  return forLoop word initial condition increment repeated

def furtherParameters (count : Nat) : (steps : Nat) → Parser (List Token)
  | 0 => outOfSteps
  | steps + 1 => do
    checkCount count .tooManyParameters
    let parameter ← expect .identifier (.expected .parameterName)
    match ← accept [.comma] with
    | none => return [parameter]
    | some _ => do
      let rest ← furtherParameters (count + 1) steps
      return parameter :: rest

def parameterList (steps : Nat) : Parser (List Token) := do
  if ← nextIs [.rightParen] then return [] else furtherParameters 0 steps

/-- The rest of a block behind its opening brace. -/
def closedBlock (declarations : Parser (List Stmt)) : Parser (List Stmt) := do
  let body ← declarations
  let _ ← expect .rightBrace (.expected .braceAfterBlock)
  return body

def functionDeclaration (steps : Nat) (declarations : Parser (List Stmt)) : Parser Stmt := do
  let name ← expect .identifier (.expected .functionName)
  let _ ← expect .leftParen (.expected .parenAfterFunctionName)
  let parameters ← parameterList steps
  let _ ← expect .rightParen (.expected .parenAfterParameters)
  let _ ← expect .leftBrace (.expected .braceBeforeBody)
  let body ← closedBlock declarations
  return .function name parameters body

/-- A declaration or a statement; none when it is a class. -/
def plainDeclaration (steps : Nat) (value : Parser Expr) (statement : Parser Stmt)
    (declarations : Parser (List Stmt)) : Parser (Option Stmt) := do
  match ← accept [.varWord, .fnWord, .classWord] with
  | none => do
    let stmt ← statement
    return some stmt
  | some word =>
    match word.kind with
    | .varWord => do
      let stmt ← variableDeclaration value
      return some stmt
    | .fnWord => do
      let stmt ← functionDeclaration steps declarations
      return some stmt
    | _ => do
      skipClass word
      return none

/-- Do the declarations end here? In a block a closing brace ends them, too. -/
def declarationsEnd (nested : Bool) : Parser Bool :=
  if nested then do
    if ← atEnd then return true else nextIs [.rightBrace]
  else atEnd

mutual

def statement : (steps : Nat) → Parser Stmt
  | 0 => outOfSteps
  | steps + 1 => do
    let starts :=
      [.forWord, .ifWord, .whileWord, .leftBrace, .breakWord, .continueWord, .returnWord]
    match ← accept starts with
    | none => expressionStatement (expression steps)
    | some word =>
      match word.kind with
      | .forWord => forStatement word (expression steps) (statement steps)
      | .ifWord => ifStatement word (expression steps) (statement steps)
      | .whileWord => whileStatement word (expression steps) (statement steps)
      | .breakWord => do
        let _ ← expect .semicolon (.expected .semicolonAfterBreak)
        return .breakLoop word
      | .continueWord => do
        let _ ← expect .semicolon (.expected .semicolonAfterContinue)
        return .continueLoop word
      | .returnWord => returnStatement word (expression steps)
      | _ => do
        let body ← closedBlock (declarations true steps)
        return .block body word.pos

/-- A declaration or a statement; none when it is a class or is malformed. -/
def declaration (nested : Bool) : (steps : Nat) → Parser (Option Stmt)
  | 0 => outOfSteps
  | steps + 1 =>
    recover nested (plainDeclaration steps (expression steps) (statement steps) (declarations true steps))

def declarations (nested : Bool) : (steps : Nat) → Parser (List Stmt)
  | 0 => outOfSteps
  | steps + 1 => do
    if ← declarationsEnd nested then return []
    else do
      let first ← declaration nested steps
      let rest ← declarations nested steps
      return first.toList ++ rest

end

end Treewalk.Parser
