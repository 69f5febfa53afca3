import Treewalk.Diagnostic
import Treewalk.Tree

/-! Tokens and trees with their places moved. Moving every place to the same one forgets where a
tree was read; moving none changes nothing. -/

namespace Treewalk

def Token.relocate (move : Position → Position) (token : Token) : Token :=
  { token with pos := move token.pos }

mutual

def Expr.relocate (move : Position → Position) : Expr → Expr
  | .literal value pos => .literal value (move pos)
  | .name token => .name (token.relocate move)
  | .assign target value => .assign (target.relocate move) (value.relocate move)
  | .ternary condition first second =>
    .ternary (condition.relocate move) (first.relocate move) (second.relocate move)
  | .logical left operator right =>
    .logical (left.relocate move) (operator.relocate move) (right.relocate move)
  | .binary left operator right =>
    .binary (left.relocate move) (operator.relocate move) (right.relocate move)
  | .unary operator operand => .unary (operator.relocate move) (operand.relocate move)
  | .group inner => .group (inner.relocate move)
  | .call callee paren arguments =>
    .call (callee.relocate move) (paren.relocate move) (Expr.relocateEach move arguments)
  | .hole => .hole

def Expr.relocateEach (move : Position → Position) : List Expr → List Expr
  | [] => []
  | expr :: rest => expr.relocate move :: Expr.relocateEach move rest

end

mutual

def Stmt.relocate (move : Position → Position) : Stmt → Stmt
  | .expression value => .expression (value.relocate move)
  | .print value => .print (value.relocate move)
  | .declare name initial => .declare (name.relocate move) (initial.map (Expr.relocate move))
  | .block body pos => .block (Stmt.relocateEach move body) (move pos)
  | .branch condition consequence none pos =>
    .branch (condition.relocate move) (consequence.relocate move) none (move pos)
  | .branch condition consequence (some alternative) pos =>
    .branch (condition.relocate move) (consequence.relocate move) (some (alternative.relocate move)) (move pos)
  | .loop condition body none pos => .loop (condition.relocate move) (body.relocate move) none (move pos)
  | .loop condition body (some post) pos =>
    .loop (condition.relocate move) (body.relocate move) (some (post.relocate move)) (move pos)
  | .breakLoop keyword => .breakLoop (keyword.relocate move)
  | .continueLoop keyword => .continueLoop (keyword.relocate move)
  | .function name parameters body =>
    .function (name.relocate move) (parameters.map (Token.relocate move)) (Stmt.relocateEach move body)
  | .returnValue keyword result => .returnValue (keyword.relocate move) (result.map (Expr.relocate move))
  | .hole => .hole

def Stmt.relocateEach (move : Position → Position) : List Stmt → List Stmt
  | [] => []
  | stmt :: rest => stmt.relocate move :: Stmt.relocateEach move rest

end

def Diagnostic.relocate (move : Position → Position) (error : Diagnostic) : Diagnostic :=
  { error with token := error.token.relocate move }

variable (move : Position → Position)

namespace Token

@[simp] theorem relocate_kind (token : Token) : (token.relocate move).kind = token.kind := rfl

@[simp] theorem relocate_lexeme (token : Token) : (token.relocate move).lexeme = token.lexeme := rfl

@[simp] theorem relocate_id (token : Token) : token.relocate id = token := rfl

end Token

@[simp] theorem Expr.relocateEach_eq_map (exprs : List Expr) :
    Expr.relocateEach move exprs = exprs.map (Expr.relocate move) := by
  induction exprs with
  | nil => rfl
  | cons expr rest ih => simp [Expr.relocateEach, ih]

@[simp] theorem Stmt.relocateEach_eq_map (stmts : List Stmt) :
    Stmt.relocateEach move stmts = stmts.map (Stmt.relocate move) := by
  induction stmts with
  | nil => rfl
  | cons stmt rest ih => simp [Stmt.relocateEach, ih]

theorem Stmt.relocate_branch (condition : Expr) (consequence : Stmt) (alternative : Option Stmt) (pos : Position) :
    (Stmt.branch condition consequence alternative pos).relocate move =
      .branch (condition.relocate move) (consequence.relocate move) (alternative.map (Stmt.relocate move)) (move pos) := by
  cases alternative <;> simp [Stmt.relocate]

theorem Stmt.relocate_loop (condition : Expr) (body : Stmt) (post : Option Stmt) (pos : Position) :
    (Stmt.loop condition body post pos).relocate move =
      .loop (condition.relocate move) (body.relocate move) (post.map (Stmt.relocate move)) (move pos) := by
  cases post <;> simp [Stmt.relocate]

mutual

theorem Expr.relocate_id : ∀ expr : Expr, expr.relocate id = expr
  | .literal .. | .name _ | .hole => rfl
  | .assign _ value => by simp [Expr.relocate, Expr.relocate_id value]
  | .ternary condition first second => by
    simp [Expr.relocate, Expr.relocate_id condition, Expr.relocate_id first, Expr.relocate_id second]
  | .logical left _ right | .binary left _ right => by
    simp [Expr.relocate, Expr.relocate_id left, Expr.relocate_id right]
  | .unary _ operand => by simp [Expr.relocate, Expr.relocate_id operand]
  | .group inner => by simp [Expr.relocate, Expr.relocate_id inner]
  | .call callee _ arguments => by
    rw [Expr.relocate, Expr.relocate_id callee, Expr.relocateEach_id arguments, Token.relocate_id]

theorem Expr.relocateEach_id : ∀ exprs : List Expr, Expr.relocateEach id exprs = exprs
  | [] => rfl
  | expr :: rest => by rw [Expr.relocateEach, Expr.relocate_id expr, Expr.relocateEach_id rest]

end

theorem Expr.relocate_id_eq : Expr.relocate id = id := funext Expr.relocate_id

mutual

theorem Stmt.relocate_id : ∀ stmt : Stmt, stmt.relocate id = stmt
  | .expression _ | .print _ | .declare .. | .returnValue .. => by
    simp [Stmt.relocate, Expr.relocate_id, Expr.relocate_id_eq]
  | .breakLoop _ | .continueLoop _ | .hole => rfl
  | .block body _ => by rw [Stmt.relocate, Stmt.relocateEach_id body]; rfl
  | .branch condition consequence none _ | .loop condition consequence none _ => by
    simp [Stmt.relocate, Expr.relocate_id, Stmt.relocate_id consequence]
  | .branch condition consequence (some other) _ | .loop condition consequence (some other) _ => by
    simp [Stmt.relocate, Expr.relocate_id, Stmt.relocate_id consequence, Stmt.relocate_id other]
  | .function name parameters body => by
    rw [Stmt.relocate, Stmt.relocateEach_id body, show Token.relocate id = id from rfl, List.map_id, id]

theorem Stmt.relocateEach_id : ∀ stmts : List Stmt, Stmt.relocateEach id stmts = stmts
  | [] => rfl
  | stmt :: rest => by rw [Stmt.relocateEach, Stmt.relocate_id stmt, Stmt.relocateEach_id rest]

end

theorem Stmt.relocate_id_eq : Stmt.relocate id = id := funext Stmt.relocate_id

end Treewalk
