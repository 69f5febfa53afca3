import Treewalk.Parser

/-! Expressions. Operators that bind equally tightly form a level; the levels are tried from the
loosest to the tightest, and a level groups its operators to the left. -/

namespace Treewalk.Parser

structure Level where
  operators : List TokenKind
  node : Expr → Token → Expr → Expr

/-- The levels of binary operators, loosest first. -/
def levels : List Level :=
  [⟨[.orWord], .logical⟩,
   ⟨[.andWord], .logical⟩,
   ⟨[.bangEqual, .equalEqual], .binary⟩,
   ⟨[.greater, .greaterEqual, .less, .lessEqual], .binary⟩,
   ⟨[.minus, .plus], .binary⟩,
   ⟨[.slash, .star], .binary⟩]

def assignmentSigns : List TokenKind :=
  [.assign, .plusAssign, .minusAssign, .starAssign, .slashAssign]

def compoundOperator : TokenKind → Option TokenKind
  | .plusAssign => some .plus
  | .minusAssign => some .minus
  | .starAssign => some .star
  | .slashAssign => some .slash
  | _ => none

/-- `x op= v` assigns `x op v`. -/
def assignedValue (target sign : Token) (value : Expr) : Expr :=
  match compoundOperator sign.kind with
  | some operator => .binary (.name target) (.operatorAt operator sign) value
  | none => value

/-- `++x` and `--x` assign `x + 1` and `x - 1`. -/
def increment (sign : Token) : Parser Expr := do
  let target ← expect .identifier (.identifierAfter sign.lexeme)
  let operator := if sign.kind == .minusMinus then .minus else .plus
  return .assign target
    (.binary (.name target) (.operatorAt operator sign) (.literal (.number 1.0) sign.pos))

def atom? (token : Token) : Option Expr :=
  match token.kind with
  | .falseWord => some (.literal (.bool false) token.pos)
  | .trueWord => some (.literal (.bool true) token.pos)
  | .nullWord => some (.literal .null token.pos)
  | .number => some (.literal token.value token.pos)
  | .string => some (.literal token.value token.pos)
  | .identifier => some (.name token)
  | _ => none

def atomStarts : List TokenKind :=
  [.falseWord, .trueWord, .nullWord, .number, .string, .identifier]

def noExpression : Parser Expr := do
  let token ← peek
  if token.kind == .thisWord || token.kind == .superWord then
    fail token (.unsupportedWord token.lexeme)
  else
    fail token (.expected .expression)

mutual

/-- An assignment, which groups to the right, or an expression without one. Whether the left side
can be assigned to is looked at when the right side has been read. -/
def expression : (steps : Nat) → Parser Expr
  | 0 => outOfSteps
  | steps + 1 => do
    let left ← ternary steps
    match ← accept assignmentSigns with
    | none => return left
    | some sign => do
      let value ← expression steps
      match left with
      | .name target => return .assign target (assignedValue target sign value)
      | _ => do
        report sign .invalidTarget
        return left

def ternary : (steps : Nat) → Parser Expr
  | 0 => outOfSteps
  | steps + 1 => do
    let condition ← binary levels steps
    match ← accept [.question] with
    | none => return condition
    | some _ => do
      let first ← ternary steps
      let _ ← expect .colon (.expected .colonAfterBranch)
      let second ← ternary steps
      return .ternary condition first second

def binary : (levels : List Level) → (steps : Nat) → Parser Expr
  | _, 0 => outOfSteps
  | [], steps + 1 => unary steps
  | level :: tighter, steps + 1 => do
    let left ← binary tighter steps
    operands level tighter left steps

/-- The further operands of a level, with what stands to their left. -/
def operands (level : Level) (tighter : List Level) (left : Expr) : (steps : Nat) → Parser Expr
  | 0 => outOfSteps
  | steps + 1 => do
    match ← accept level.operators with
    | none => return left
    | some operator => do
      let right ← binary tighter steps
      operands level tighter (level.node left operator right) steps

def unary : (steps : Nat) → Parser Expr
  | 0 => outOfSteps
  | steps + 1 => do
    match ← accept [.plusPlus, .minusMinus, .bang, .minus] with
    | none => do
      let callee ← primary steps
      calls callee steps
    | some sign =>
      if sign.kind == .plusPlus || sign.kind == .minusMinus then
        increment sign
      else do
        let operand ← unary steps
        return .unary sign operand

/-- The argument lists behind an expression, each of which calls what stands before it. -/
def calls (callee : Expr) : (steps : Nat) → Parser Expr
  | 0 => outOfSteps
  | steps + 1 => do
    match ← accept [.leftParen] with
    | none => return callee
    | some _ => do
      let found ← argumentList steps
      let paren ← expect .rightParen (.expected .parenAfterArguments)
      calls (.call callee paren found) steps

def argumentList : (steps : Nat) → Parser (List Expr)
  | 0 => outOfSteps
  | steps + 1 => do
    if ← nextIs [.rightParen] then return [] else furtherArguments 0 steps

/-- At least one argument, when `count` of them have been read. -/
def furtherArguments (count : Nat) : (steps : Nat) → Parser (List Expr)
  | 0 => outOfSteps
  | steps + 1 => do
    checkCount count .tooManyArguments
    let argument ← expression steps
    match ← accept [.comma] with
    | none => return [argument]
    | some _ => do
      let rest ← furtherArguments (count + 1) steps
      return argument :: rest

def primary : (steps : Nat) → Parser Expr
  | 0 => outOfSteps
  | steps + 1 => do
    match ← accept (.leftParen :: atomStarts) with
    | none => noExpression
    | some token =>
      match atom? token with
      | some atom => return atom
      | none => do
        let inner ← expression steps
        let _ ← expect .rightParen (.expected .parenAfterExpression)
        return .group inner

end

end Treewalk.Parser
