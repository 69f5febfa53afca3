import Treewalk.Tree

/-! The grammar of the language, with the tree that each derivation stands for. It says nothing about
how a text is read: a phrase is a list of tokens, and a production puts phrases one after another. -/

namespace Treewalk.Grammar

inductive Tier where
  | disjunction | conjunction | equality | comparison | term | factor

inductive Phrase where
  | expression | ternary | chain (tier : Tier) | unary | call | primary

namespace Tier

def operators : Tier → List TokenKind
  | disjunction => [.orWord]
  | conjunction => [.andWord]
  | equality => [.bangEqual, .equalEqual]
  | comparison => [.greater, .greaterEqual, .less, .lessEqual]
  | term => [.minus, .plus]
  | factor => [.slash, .star]

def operand : Tier → Phrase
  | disjunction => .chain conjunction
  | conjunction => .chain equality
  | equality => .chain comparison
  | comparison => .chain term
  | term => .chain factor
  | factor => .unary

/-- Only the words `and` and `or` may leave their right side unevaluated. -/
def node : Tier → Expr → Token → Expr → Expr
  | disjunction | conjunction => .logical
  | _ => .binary

end Tier

def compoundSigns : List (TokenKind × TokenKind) :=
  [(.plusAssign, .plus), (.minusAssign, .minus), (.starAssign, .star), (.slashAssign, .slash)]

inductive Separated : List (List Token) → List Token → Prop where
  | none : Separated [] []
  | last (part : List Token) : Separated [part] part
  | more {part next : List Token} {parts : List (List Token)} {mark : Token} {tokens : List Token}
      (divides : mark.kind = .comma) (rest : Separated (next :: parts) tokens) :
      Separated (part :: next :: parts) (part ++ mark :: tokens)

def listLimit : Nat := 255

inductive Expression : Phrase → List Token → Expr → Prop where
  /-- An assignment groups to the right, and its left side is a name. -/
  | assign {target sign : Token} {tokens : List Token} {value : Expr} (name : target.kind = .identifier)
      (assigns : sign.kind = .assign) (right : Expression .expression tokens value) :
      Expression .expression (target :: sign :: tokens) (.assign target value)
  /-- `x += v` stands for `x = x + v`, with the operator at the place of the sign. -/
  | compound {target sign : Token} {operator : TokenKind} {tokens : List Token} {value : Expr}
      (name : target.kind = .identifier) (assigns : (sign.kind, operator) ∈ compoundSigns)
      (right : Expression .expression tokens value) :
      Expression .expression (target :: sign :: tokens)
        (.assign target (.binary (.name target) (.operatorAt operator sign) value))
  | unassigned {tokens : List Token} {expr : Expr} (inner : Expression .ternary tokens expr) :
      Expression .expression tokens expr
  | choice {tokens firsts seconds : List Token} {mark divider : Token} {condition first second : Expr}
      (decision : Expression (.chain .disjunction) tokens condition) (asks : mark.kind = .question)
      (yes : Expression .ternary firsts first) (divides : divider.kind = .colon)
      (no : Expression .ternary seconds second) :
      Expression .ternary (tokens ++ mark :: (firsts ++ divider :: seconds)) (.ternary condition first second)
  | unchosen {tokens : List Token} {expr : Expr} (inner : Expression (.chain .disjunction) tokens expr) :
      Expression .ternary tokens expr
  | operand {tier : Tier} {tokens : List Token} {expr : Expr} (inner : Expression tier.operand tokens expr) :
      Expression (.chain tier) tokens expr
  /-- Operators group to the left. -/
  | operator {tier : Tier} {lefts rights : List Token} {sign : Token} {left right : Expr}
      (first : Expression (.chain tier) lefts left) (joins : sign.kind ∈ tier.operators)
      (second : Expression tier.operand rights right) :
      Expression (.chain tier) (lefts ++ sign :: rights) (tier.node left sign right)
  /-- `++x` stands for `x = x + 1`. -/
  | increment {sign target : Token} (counts : sign.kind = .plusPlus) (name : target.kind = .identifier) :
      Expression .unary [sign, target]
        (.assign target (.binary (.name target) (.operatorAt .plus sign) (.literal (.number 1.0) sign.pos)))
  | decrement {sign target : Token} (counts : sign.kind = .minusMinus) (name : target.kind = .identifier) :
      Expression .unary [sign, target]
        (.assign target (.binary (.name target) (.operatorAt .minus sign) (.literal (.number 1.0) sign.pos)))
  | negation {sign : Token} {tokens : List Token} {expr : Expr} (negates : sign.kind ∈ [.bang, .minus])
      (inner : Expression .unary tokens expr) : Expression .unary (sign :: tokens) (.unary sign expr)
  | unsigned {tokens : List Token} {expr : Expr} (inner : Expression .call tokens expr) :
      Expression .unary tokens expr
  | uncalled {tokens : List Token} {expr : Expr} (inner : Expression .primary tokens expr) :
      Expression .call tokens expr
  | call {tokens listed : List Token} {opening closing : Token} {callee : Expr}
      {arguments : List (List Token × Expr)} (called : Expression .call tokens callee)
      (opens : opening.kind = .leftParen)
      (each : ∀ argument ∈ arguments, Expression .expression argument.1 argument.2)
      (few : arguments.length ≤ listLimit) (list : Separated (arguments.map Prod.fst) listed)
      (closes : closing.kind = .rightParen) :
      Expression .call (tokens ++ opening :: (listed ++ [closing])) (.call callee closing (arguments.map Prod.snd))
  | truth {token : Token} (word : token.kind = .trueWord) :
      Expression .primary [token] (.literal (.bool true) token.pos)
  | falsity {token : Token} (word : token.kind = .falseWord) :
      Expression .primary [token] (.literal (.bool false) token.pos)
  | null {token : Token} (word : token.kind = .nullWord) : Expression .primary [token] (.literal .null token.pos)
  | constant {token : Token} (spelled : token.kind ∈ [.number, .string]) :
      Expression .primary [token] (.literal token.value token.pos)
  | name {token : Token} (names : token.kind = .identifier) : Expression .primary [token] (.name token)
  | group {tokens : List Token} {opening closing : Token} {expr : Expr} (opens : opening.kind = .leftParen)
      (inner : Expression .expression tokens expr) (closes : closing.kind = .rightParen) :
      Expression .primary (opening :: (tokens ++ [closing])) (.group expr)

inductive Optional : List Token → Option Expr → Prop where
  | absent : Optional [] none
  | present {tokens : List Token} {expr : Expr} (inner : Expression .expression tokens expr) :
      Optional tokens (some expr)

inductive VariableDeclaration : List Token → Stmt → Prop where
  | bare {word name closing : Token} (declares : word.kind = .varWord) (names : name.kind = .identifier)
      (ends : closing.kind = .semicolon) : VariableDeclaration [word, name, closing] (.declare name none)
  | initialized {word name sign closing : Token} {tokens : List Token} {expr : Expr}
      (declares : word.kind = .varWord) (names : name.kind = .identifier) (assigns : sign.kind = .assign)
      (value : Expression .expression tokens expr) (ends : closing.kind = .semicolon) :
      VariableDeclaration (word :: name :: sign :: (tokens ++ [closing])) (.declare name (some expr))

inductive Beginning : List Token → Stmt → Prop where
  | declare {tokens : List Token} {stmt : Stmt} (declared : VariableDeclaration tokens stmt) : Beginning tokens stmt
  | expression {tokens : List Token} {expr : Expr} {closing : Token} (value : Expression .expression tokens expr)
      (ends : closing.kind = .semicolon) : Beginning (tokens ++ [closing]) (.expression expr)

/-- What a program may be made of. A statement `dangles` when it ends with an `if` to which an `else`
could still be added. -/
inductive Form where
  | declaration
  | statement (dangles : Bool)

/-- The loop that a `for` stands for. Without a condition it goes on for ever. -/
def forLoop (word : Token) (condition increment : Option Expr) (body : Stmt) : Stmt :=
  .loop (condition.getD (.literal (.bool true) word.pos)) body (increment.map .expression) word.pos

/-- Declarations and statements. As written the grammar leaves open to which `if` an `else` belongs;
with `nearest` it belongs to the nearest one that it could belong to. -/
inductive Statement (nearest : Prop) : Form → List Token → Stmt → Prop where
  | declare {tokens : List Token} {stmt : Stmt} (declared : VariableDeclaration tokens stmt) :
      Statement nearest .declaration tokens stmt
  | function {word name opening closing brace ending : Token} {parameters listed : List Token}
      {body : List (List Token × Stmt)} (declares : word.kind = .fnWord) (names : name.kind = .identifier)
      (opens : opening.kind = .leftParen) (each : ∀ parameter ∈ parameters, parameter.kind = .identifier)
      (few : parameters.length ≤ listLimit) (list : Separated (parameters.map fun parameter => [parameter]) listed)
      (closes : closing.kind = .rightParen) (begins : brace.kind = .leftBrace)
      (inner : ∀ item ∈ body, Statement nearest .declaration item.1 item.2) (ends : ending.kind = .rightBrace) :
      Statement nearest .declaration
        (word :: name :: opening :: (listed ++ closing :: brace :: ((body.map Prod.fst).flatten ++ [ending])))
        (.function name parameters (body.map Prod.snd))
  | statement {dangles : Bool} {tokens : List Token} {stmt : Stmt}
      (inner : Statement nearest (.statement dangles) tokens stmt) : Statement nearest .declaration tokens stmt
  | block {brace ending : Token} {body : List (List Token × Stmt)} (begins : brace.kind = .leftBrace)
      (inner : ∀ item ∈ body, Statement nearest .declaration item.1 item.2) (ends : ending.kind = .rightBrace) :
      Statement nearest (.statement false) (brace :: ((body.map Prod.fst).flatten ++ [ending]))
        (.block (body.map Prod.snd) brace.pos)
  | branch {word opening closing : Token} {tokens thens : List Token} {condition : Expr} {consequence : Stmt}
      {dangles : Bool} (asks : word.kind = .ifWord) (opens : opening.kind = .leftParen)
      (decision : Expression .expression tokens condition) (closes : closing.kind = .rightParen)
      (yes : Statement nearest (.statement dangles) thens consequence) :
      Statement nearest (.statement true) (word :: opening :: (tokens ++ closing :: thens))
        (.branch condition consequence none word.pos)
  | branchElse {word opening closing other : Token} {tokens thens elses : List Token} {condition : Expr}
      {consequence alternative : Stmt} {inside dangles : Bool} (asks : word.kind = .ifWord)
      (opens : opening.kind = .leftParen) (decision : Expression .expression tokens condition)
      (closes : closing.kind = .rightParen) (yes : Statement nearest (.statement inside) thens consequence)
      (owner : nearest → inside = false) (divides : other.kind = .elseWord)
      (no : Statement nearest (.statement dangles) elses alternative) :
      Statement nearest (.statement dangles)
        (word :: opening :: (tokens ++ closing :: (thens ++ other :: elses)))
        (.branch condition consequence (some alternative) word.pos)
  | whileLoop {word opening closing : Token} {tokens bodies : List Token} {condition : Expr} {body : Stmt}
      {dangles : Bool} (loops : word.kind = .whileWord) (opens : opening.kind = .leftParen)
      (decision : Expression .expression tokens condition) (closes : closing.kind = .rightParen)
      (repeated : Statement nearest (.statement dangles) bodies body) :
      Statement nearest (.statement dangles) (word :: opening :: (tokens ++ closing :: bodies))
        (.loop condition body none word.pos)
  /-- A loop that has something to do before it stands in a block of its own. -/
  | forLoopFrom {word opening divider closing : Token} {starts conditions increments bodies : List Token}
      {initial body : Stmt} {condition increment : Option Expr} {dangles : Bool} (loops : word.kind = .forWord)
      (opens : opening.kind = .leftParen) (beginning : Beginning starts initial)
      (decision : Optional conditions condition) (divides : divider.kind = .semicolon)
      (step : Optional increments increment) (closes : closing.kind = .rightParen)
      (repeated : Statement nearest (.statement dangles) bodies body) :
      Statement nearest (.statement dangles)
        (word :: opening :: (starts ++ (conditions ++ divider :: (increments ++ closing :: bodies))))
        (.block [initial, forLoop word condition increment body] word.pos)
  | forLoop {word opening first divider closing : Token} {conditions increments bodies : List Token}
      {body : Stmt} {condition increment : Option Expr} {dangles : Bool} (loops : word.kind = .forWord)
      (opens : opening.kind = .leftParen) (begins : first.kind = .semicolon)
      (decision : Optional conditions condition) (divides : divider.kind = .semicolon)
      (step : Optional increments increment) (closes : closing.kind = .rightParen)
      (repeated : Statement nearest (.statement dangles) bodies body) :
      Statement nearest (.statement dangles)
        (word :: opening :: first :: (conditions ++ divider :: (increments ++ closing :: bodies)))
        (forLoop word condition increment body)
  | breakLoop {word closing : Token} (leaves : word.kind = .breakWord) (ends : closing.kind = .semicolon) :
      Statement nearest (.statement false) [word, closing] (.breakLoop word)
  | continueLoop {word closing : Token} (skips : word.kind = .continueWord) (ends : closing.kind = .semicolon) :
      Statement nearest (.statement false) [word, closing] (.continueLoop word)
  | returnValue {word closing : Token} {tokens : List Token} {result : Option Expr}
      (returns : word.kind = .returnWord) (value : Optional tokens result) (ends : closing.kind = .semicolon) :
      Statement nearest (.statement false) (word :: (tokens ++ [closing])) (.returnValue word result)
  | expression {closing : Token} {tokens : List Token} {expr : Expr} (value : Expression .expression tokens expr)
      (ends : closing.kind = .semicolon) :
      Statement nearest (.statement false) (tokens ++ [closing]) (.expression expr)

def Declarations (nearest : Prop) (tokens : List Token) (stmts : List Stmt) : Prop :=
  ∃ items : List (List Token × Stmt), (∀ item ∈ items, Statement nearest .declaration item.1 item.2) ∧
    tokens = (items.map Prod.fst).flatten ∧ stmts = items.map Prod.snd

end Treewalk.Grammar
