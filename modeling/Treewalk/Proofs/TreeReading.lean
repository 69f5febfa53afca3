import Treewalk.Proofs.PlainRun
import Treewalk.Proofs.TreeShapes

/-! Trees can be read back from their shapes. The notation leaves out where a node stands and how a logical
operator is spelled; everything else of a tree that could come from a source is there. -/

namespace Treewalk

section Respelling

def Token.respelled (token : Token) : Token :=
  { token with lexeme := token.kind.bytes }

mutual

/-- The tree with `and` in the place of `&&` and `or` in the place of `||`. -/
def Expr.respelled : Expr → Expr
  | .literal value pos => .literal value pos
  | .name token => .name token
  | .assign target value => .assign target value.respelled
  | .ternary condition first second => .ternary condition.respelled first.respelled second.respelled
  | .logical left operator right => .logical left.respelled operator.respelled right.respelled
  | .binary left operator right => .binary left.respelled operator right.respelled
  | .unary operator operand => .unary operator operand.respelled
  | .group inner => .group inner.respelled
  | .call callee paren arguments => .call callee.respelled paren (Expr.respelledEach arguments)
  | .hole => .hole

def Expr.respelledEach : List Expr → List Expr
  | [] => []
  | expr :: rest => expr.respelled :: Expr.respelledEach rest

end

mutual

def Stmt.respelled : Stmt → Stmt
  | .expression value => .expression value.respelled
  | .print value => .print value.respelled
  | .declare name initial => .declare name (initial.map Expr.respelled)
  | .block body pos => .block (Stmt.respelledEach body) pos
  | .branch condition consequence none pos => .branch condition.respelled consequence.respelled none pos
  | .branch condition consequence (some alternative) pos =>
    .branch condition.respelled consequence.respelled (some alternative.respelled) pos
  | .loop condition body none pos => .loop condition.respelled body.respelled none pos
  | .loop condition body (some post) pos => .loop condition.respelled body.respelled (some post.respelled) pos
  | .breakLoop keyword => .breakLoop keyword
  | .continueLoop keyword => .continueLoop keyword
  | .function name parameters body => .function name parameters (Stmt.respelledEach body)
  | .returnValue keyword result => .returnValue keyword (result.map Expr.respelled)
  | .hole => .hole

def Stmt.respelledEach : List Stmt → List Stmt
  | [] => []
  | stmt :: rest => stmt.respelled :: Stmt.respelledEach rest

end

@[simp] theorem Expr.respelledEach_eq_map (exprs : List Expr) : Expr.respelledEach exprs = exprs.map Expr.respelled := by
  induction exprs with
  | nil => rfl
  | cons expr rest ih => rw [Expr.respelledEach, ih, List.map_cons]

@[simp] theorem Stmt.respelledEach_eq_map (stmts : List Stmt) : Stmt.respelledEach stmts = stmts.map Stmt.respelled := by
  induction stmts with
  | nil => rfl
  | cons stmt rest ih => rw [Stmt.respelledEach, ih, List.map_cons]

theorem Stmt.respelled_branch (condition : Expr) (consequence : Stmt) (alternative : Option Stmt) (pos : Position) :
    (Stmt.branch condition consequence alternative pos).respelled =
      .branch condition.respelled consequence.respelled (alternative.map Stmt.respelled) pos := by
  cases alternative <;> simp [Stmt.respelled]

theorem Stmt.respelled_loop (condition : Expr) (body : Stmt) (post : Option Stmt) (pos : Position) :
    (Stmt.loop condition body post pos).respelled =
      .loop condition.respelled body.respelled (post.map Stmt.respelled) pos := by
  cases post <;> simp [Stmt.respelled]

end Respelling

section Shapes

def Shape.node (head : Bytes) (parts : List Shape) : Shape :=
  .list (.word head :: parts)

mutual

def Expr.shape : Expr → Shape
  | .literal value _ => .constant value
  | .name token => .word token.lexeme
  | .assign target value => .node (.ofString "=") [.word target.lexeme, value.shape]
  | .ternary condition first second => .node (.ofString "?:") [condition.shape, first.shape, second.shape]
  | .logical left operator right => .node operator.kind.bytes [left.shape, right.shape]
  | .binary left operator right => .node operator.lexeme [left.shape, right.shape]
  | .unary operator operand => .node operator.lexeme [operand.shape]
  | .group inner => .node (.ofString "group") [inner.shape]
  | .call callee _ arguments => .node (.ofString "call") (callee.shape :: Expr.shapeEach arguments)
  | .hole => .word (.ofString "<unknown expr>")

def Expr.shapeEach : List Expr → List Shape
  | [] => []
  | expr :: rest => expr.shape :: Expr.shapeEach rest

end

mutual

def Stmt.shape : Stmt → Shape
  | .expression value => .node (.ofString ";") [value.shape]
  | .print value => .node (.ofString "print") [value.shape]
  | .declare name initial => .node (.ofString "var") (.word name.lexeme :: (initial.map Expr.shape).toList)
  | .block body _ => .node (.ofString "block") (Stmt.shapeEach body)
  | .branch condition consequence none _ => .node (.ofString "if") [condition.shape, consequence.shape]
  | .branch condition consequence (some alternative) _ =>
    .node (.ofString "if") [condition.shape, consequence.shape, alternative.shape]
  | .loop condition body none _ => .node (.ofString "while") [condition.shape, body.shape]
  | .loop condition body (some post) _ => .node (.ofString "while") [condition.shape, body.shape, post.shape]
  | .breakLoop _ => .node (.ofString "break") []
  | .continueLoop _ => .node (.ofString "continue") []
  | .function name parameters body =>
    .node (.ofString "fn") (.word name.lexeme :: .list (parameters.map fun parameter => .word parameter.lexeme) ::
      Stmt.shapeEach body)
  | .returnValue _ result => .node (.ofString "return") (result.map Expr.shape).toList
  | .hole => .word (.ofString "<unknown stmt>")

def Stmt.shapeEach : List Stmt → List Shape
  | [] => []
  | stmt :: rest => stmt.shape :: Stmt.shapeEach rest

end

@[simp] theorem Expr.shapeEach_eq_map (exprs : List Expr) : Expr.shapeEach exprs = exprs.map Expr.shape := by
  induction exprs with
  | nil => rfl
  | cons expr rest ih => rw [Expr.shapeEach, ih, List.map_cons]

@[simp] theorem Stmt.shapeEach_eq_map (stmts : List Stmt) : Stmt.shapeEach stmts = stmts.map Stmt.shape := by
  induction stmts with
  | nil => rfl
  | cons stmt rest ih => rw [Stmt.shapeEach, ih, List.map_cons]

theorem Stmt.shape_branch (condition : Expr) (consequence : Stmt) (alternative : Option Stmt) (pos : Position) :
    (Stmt.branch condition consequence alternative pos).shape =
      .node (.ofString "if") (condition.shape :: consequence.shape :: (alternative.map Stmt.shape).toList) := by
  cases alternative <;> simp [Stmt.shape]

theorem Stmt.shape_loop (condition : Expr) (body : Stmt) (post : Option Stmt) (pos : Position) :
    (Stmt.loop condition body post pos).shape =
      .node (.ofString "while") (condition.shape :: body.shape :: (post.map Stmt.shape).toList) := by
  cases post <;> simp [Stmt.shape]

theorem Shape.text_node (head : Bytes) (parts : List Shape) :
    (Shape.node head parts).text = parenthesized head (parts.map Shape.text) := by
  rw [node, text, textEach_eq_map]
  rfl

mutual

theorem Expr.text_shape : ∀ expr : Expr, expr.shape.text = expr.text
  | .literal .. | .name _ | .hole => rfl
  | .assign _ value => by
    rw [Expr.shape, Shape.text_node, Expr.text, ← Expr.text_shape value]
    rfl
  | .ternary condition first second => by
    rw [Expr.shape, Shape.text_node, Expr.text, ← Expr.text_shape condition, ← Expr.text_shape first, ← Expr.text_shape second]
    rfl
  | .logical left _ right | .binary left _ right => by
    rw [Expr.shape, Shape.text_node, Expr.text, ← Expr.text_shape left, ← Expr.text_shape right]
    rfl
  | .unary _ operand => by
    rw [Expr.shape, Shape.text_node, Expr.text, ← Expr.text_shape operand]
    rfl
  | .group inner => by
    rw [Expr.shape, Shape.text_node, Expr.text, ← Expr.text_shape inner]
    rfl
  | .call callee _ arguments => by
    rw [Expr.shape, Shape.text_node, List.map_cons, Expr.text_shape callee, Expr.text_shapeEach arguments, Expr.text]

theorem Expr.text_shapeEach : ∀ exprs : List Expr, (Expr.shapeEach exprs).map Shape.text = Expr.textEach exprs
  | [] => rfl
  | expr :: rest => by
    rw [Expr.shapeEach, List.map_cons, Expr.text_shape expr, Expr.text_shapeEach rest, Expr.textEach]

end

mutual

theorem Stmt.text_shape : ∀ stmt : Stmt, stmt.shape.text = stmt.text
  | .expression value | .print value => by
    rw [Stmt.shape, Shape.text_node, Stmt.text, ← Expr.text_shape value]
    rfl
  | .declare _ none | .returnValue _ none => by
    rw [Stmt.shape, Shape.text_node, Stmt.text]
    rfl
  | .declare _ (some value) | .returnValue _ (some value) => by
    rw [Stmt.shape, Shape.text_node, Stmt.text, ← Expr.text_shape value]
    rfl
  | .block body _ => by rw [Stmt.shape, Shape.text_node, Stmt.text_shapeEach body, Stmt.text]
  | .branch condition consequence none _ | .loop condition consequence none _ => by
    rw [Stmt.shape, Shape.text_node, Stmt.text, ← Expr.text_shape condition, ← Stmt.text_shape consequence]
    rfl
  | .branch condition consequence (some other) _ | .loop condition consequence (some other) _ => by
    rw [Stmt.shape, Shape.text_node, Stmt.text, ← Expr.text_shape condition, ← Stmt.text_shape consequence,
      ← Stmt.text_shape other]
    rfl
  | .breakLoop _ | .continueLoop _ | .hole => rfl
  | .function name parameters body => by
    rw [Stmt.shape, Shape.text_node, List.map_cons, List.map_cons, Stmt.text_shapeEach body, Stmt.text, Shape.text,
      Shape.text, Shape.textEach_eq_map, List.map_map]
    rfl

theorem Stmt.text_shapeEach : ∀ stmts : List Stmt, (Stmt.shapeEach stmts).map Shape.text = Stmt.textEach stmts
  | [] => rfl
  | stmt :: rest => by
    rw [Stmt.shapeEach, List.map_cons, Stmt.text_shape stmt, Stmt.text_shapeEach rest, Stmt.textEach]

end

mutual

/-- A shape tells neither places nor how logical operators are spelled. -/
theorem Expr.shape_plain (move : Position → Position) : ∀ expr : Expr, (expr.relocate move).respelled.shape = expr.shape
  | .literal .. | .name _ | .hole => rfl
  | .assign _ value => by simp [Expr.relocate, Expr.respelled, Expr.shape, Expr.shape_plain move value]
  | .ternary condition first second => by
    simp [Expr.relocate, Expr.respelled, Expr.shape, Expr.shape_plain move condition, Expr.shape_plain move first,
      Expr.shape_plain move second]
  | .logical left _ right | .binary left _ right => by
    simp [Expr.relocate, Expr.respelled, Token.respelled, Expr.shape, Expr.shape_plain move left, Expr.shape_plain move right]
  | .unary _ operand => by simp [Expr.relocate, Expr.respelled, Expr.shape, Expr.shape_plain move operand]
  | .group inner => by simp [Expr.relocate, Expr.respelled, Expr.shape, Expr.shape_plain move inner]
  | .call callee _ arguments => by
    rw [Expr.relocate, Expr.respelled, Expr.shape, Expr.shape, Expr.shape_plain move callee, Expr.shapeEach_plain move arguments]

theorem Expr.shapeEach_plain (move : Position → Position) :
    ∀ exprs : List Expr, Expr.shapeEach (Expr.respelledEach (Expr.relocateEach move exprs)) = Expr.shapeEach exprs
  | [] => rfl
  | expr :: rest => by
    rw [Expr.relocateEach, Expr.respelledEach, Expr.shapeEach, Expr.shapeEach, Expr.shape_plain move expr,
      Expr.shapeEach_plain move rest]

end

mutual

theorem Stmt.shape_plain (move : Position → Position) : ∀ stmt : Stmt, (stmt.relocate move).respelled.shape = stmt.shape
  | .expression value | .print value => by simp [Stmt.relocate, Stmt.respelled, Stmt.shape, Expr.shape_plain move value]
  | .declare _ none | .returnValue _ none | .breakLoop _ | .continueLoop _ | .hole => rfl
  | .declare _ (some value) | .returnValue _ (some value) => by
    simp [Stmt.relocate, Stmt.respelled, Stmt.shape, Expr.shape_plain move value]
  | .block body _ => by rw [Stmt.relocate, Stmt.respelled, Stmt.shape, Stmt.shape, Stmt.shapeEach_plain move body]
  | .branch condition consequence none _ | .loop condition consequence none _ => by
    simp [Stmt.relocate, Stmt.respelled, Stmt.shape, Expr.shape_plain move condition, Stmt.shape_plain move consequence]
  | .branch condition consequence (some other) _ | .loop condition consequence (some other) _ => by
    simp [Stmt.relocate, Stmt.respelled, Stmt.shape, Expr.shape_plain move condition, Stmt.shape_plain move consequence,
      Stmt.shape_plain move other]
  | .function _ parameters body => by
    rw [Stmt.relocate, Stmt.respelled, Stmt.shape, Stmt.shape, Stmt.shapeEach_plain move body, List.map_map]
    rfl

theorem Stmt.shapeEach_plain (move : Position → Position) :
    ∀ stmts : List Stmt, Stmt.shapeEach (Stmt.respelledEach (Stmt.relocateEach move stmts)) = Stmt.shapeEach stmts
  | [] => rfl
  | stmt :: rest => by
    rw [Stmt.relocateEach, Stmt.respelledEach, Stmt.shapeEach, Stmt.shapeEach, Stmt.shape_plain move stmt,
      Stmt.shapeEach_plain move rest]

end

end Shapes

section ReadingBack

def Token.named (text : Bytes) : Token :=
  { kind := .identifier, lexeme := text }

def Token.spelling (kind : TokenKind) : Token :=
  { kind, lexeme := kind.bytes }

def nodeKinds : List TokenKind :=
  [.semicolon, .varWord, .ifWord, .whileWord, .breakWord, .continueWord, .fnWord, .returnWord, .assign, .orWord, .andWord,
   .bangEqual, .equalEqual, .greater, .greaterEqual, .less, .lessEqual, .minus, .plus, .slash, .star, .bang]

def nodeKind (head : Bytes) : TokenKind :=
  (nodeKinds.find? fun kind => kind.bytes == head).getD .illegal

theorem nodeKind_bytes : ∀ kind ∈ nodeKinds, nodeKind kind.bytes = kind := by
  decide +kernel

theorem word_nodeKind : ∀ kind ∈ nodeKinds, Word kind.bytes := by
  decide +kernel

/-- Some nodes are named for no token. -/
theorem nodeKind_other : ∀ head ∈ ["?:", "group", "call", "block"], nodeKind (.ofString head) = .illegal := by
  decide +kernel

theorem word_other : ∀ head ∈ ["?:", "group", "call", "block"], Word (.ofString head) := by
  decide +kernel

/-- The expression whose node is named for a token of this kind, or else has this name, and has these parts. -/
def Expr.ofKind (kind : TokenKind) (head : Bytes) (parts : List Expr) : Expr :=
  match kind, parts with
  | .illegal, [condition, first, second] =>
    if head = .ofString "?:" then .ternary condition first second
    else .call condition (.spelling .rightParen) [first, second]
  | .illegal, [inner] => if head = .ofString "group" then .group inner else .call inner (.spelling .rightParen) []
  | .illegal, callee :: arguments => .call callee (.spelling .rightParen) arguments
  | .assign, [.name target, value] => .assign target value
  | .andWord, [left, right] => .logical left (.spelling .andWord) right
  | .orWord, [left, right] => .logical left (.spelling .orWord) right
  | kind, [left, right] => .binary left (.spelling kind) right
  | kind, [operand] => .unary (.spelling kind) operand
  | _, _ => .hole

def Expr.ofNode (head : Bytes) (parts : List Expr) : Expr :=
  .ofKind (nodeKind head) head parts

mutual

def Shape.toExpr : Shape → Expr
  | .word text => .name (.named text)
  | .constant value => .literal value {}
  | .list parts =>
    match Shape.toExprEach parts with
    | .name head :: parts => .ofNode head.lexeme parts
    | _ => .hole

def Shape.toExprEach : List Shape → List Expr
  | [] => []
  | shape :: rest => shape.toExpr :: Shape.toExprEach rest

end

@[simp] theorem Shape.toExprEach_eq_map (shapes : List Shape) : toExprEach shapes = shapes.map toExpr := by
  induction shapes with
  | nil => rfl
  | cons shape rest ih => rw [toExprEach, ih, List.map_cons]

theorem Shape.toExpr_node (head : Bytes) (parts : List Shape) : (node head parts).toExpr = .ofNode head (parts.map toExpr) := by
  rw [node, toExpr, toExprEach_eq_map, List.map_cons]
  rfl

def Shape.toName : Shape → Token
  | .word text => .named text
  | _ => .named []

def Stmt.ofKind (kind : TokenKind) (parts : List Shape) (stmts : List Stmt) : Stmt :=
  match kind, parts, stmts with
  | .semicolon, [value], _ => .expression value.toExpr
  | .varWord, name :: initial, _ => .declare name.toName (initial.head?.map Shape.toExpr)
  | .ifWord, condition :: _, _ :: consequence :: alternative => .branch condition.toExpr consequence alternative.head? {}
  | .whileWord, condition :: _, _ :: body :: post => .loop condition.toExpr body post.head? {}
  | .breakWord, _, _ => .breakLoop (.spelling .breakWord)
  | .continueWord, _, _ => .continueLoop (.spelling .continueWord)
  | .fnWord, name :: .list parameters :: _, _ :: _ :: body => .function name.toName (parameters.map Shape.toName) body
  | .returnWord, result, _ => .returnValue (.spelling .returnWord) (result.head?.map Shape.toExpr)
  | .illegal, _, body => .block body {}
  | _, _, _ => .hole

def Stmt.ofNode (head : Bytes) (parts : List Shape) (stmts : List Stmt) : Stmt :=
  .ofKind (nodeKind head) parts stmts

mutual

def Shape.toStmt : Shape → Stmt
  | .list (.word head :: parts) => .ofNode head parts (Shape.toStmtEach parts)
  | _ => .hole

def Shape.toStmtEach : List Shape → List Stmt
  | [] => []
  | shape :: rest => shape.toStmt :: Shape.toStmtEach rest

end

@[simp] theorem Shape.toStmtEach_eq_map (shapes : List Shape) : toStmtEach shapes = shapes.map toStmt := by
  induction shapes with
  | nil => rfl
  | cons shape rest ih => rw [toStmtEach, ih, List.map_cons]

theorem Shape.toStmt_node (head : Bytes) (parts : List Shape) :
    (node head parts).toStmt = .ofNode head parts (parts.map toStmt) := by
  rw [node, toStmt, toStmtEach_eq_map]

theorem Expr.ofNode_bytes (kind : TokenKind) (known : kind ∈ nodeKinds) (parts : List Expr) :
    Expr.ofNode kind.bytes parts = .ofKind kind kind.bytes parts := by
  rw [Expr.ofNode, nodeKind_bytes kind known]

theorem Expr.ofNode_other (head : String) (known : head ∈ ["?:", "group", "call", "block"]) (parts : List Expr) :
    Expr.ofNode (.ofString head) parts = .ofKind .illegal (.ofString head) parts := by
  rw [Expr.ofNode, nodeKind_other head known]

theorem Stmt.ofNode_bytes (kind : TokenKind) (known : kind ∈ nodeKinds) (parts : List Shape) (stmts : List Stmt) :
    Stmt.ofNode kind.bytes parts stmts = .ofKind kind parts stmts := by
  rw [Stmt.ofNode, nodeKind_bytes kind known]

theorem Stmt.ofNode_other (head : String) (known : head ∈ ["?:", "group", "call", "block"]) (parts : List Shape)
    (stmts : List Stmt) : Stmt.ofNode (.ofString head) parts stmts = .ofKind .illegal parts stmts := by
  rw [Stmt.ofNode, nodeKind_other head known]

end ReadingBack

end Treewalk
