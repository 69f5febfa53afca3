import Treewalk.Token

/-! Programs as trees. A `hole` stands where a tree built outside a source lacks a node that it
needs; parts that a node may do without are optional. -/

namespace Treewalk

inductive Expr where
  | literal (value : Literal) (pos : Position)
  | name (token : Token)
  | assign (target : Token) (value : Expr)
  | ternary (condition first second : Expr)
  /-- Evaluates its right side only when the left one does not decide. -/
  | logical (left : Expr) (operator : Token) (right : Expr)
  | binary (left : Expr) (operator : Token) (right : Expr)
  | unary (operator : Token) (operand : Expr)
  | group (inner : Expr)
  /-- The closing parenthesis is where an error of the call is located. -/
  | call (callee : Expr) (paren : Token) (arguments : List Expr)
  | hole
  deriving Repr, Inhabited

inductive Stmt where
  | expression (value : Expr)
  | print (value : Expr)
  | declare (name : Token) (initial : Option Expr)
  | block (body : List Stmt) (pos : Position)
  | branch (condition : Expr) (consequence : Stmt) (alternative : Option Stmt) (pos : Position)
  /-- `post` runs after every turn of the body, also one cut short by `continue`. -/
  | loop (condition : Expr) (body : Stmt) (post : Option Stmt) (pos : Position)
  | breakLoop (keyword : Token)
  | continueLoop (keyword : Token)
  | function (name : Token) (parameters : List Token) (body : List Stmt)
  | returnValue (keyword : Token) (result : Option Expr)
  | hole
  deriving Repr, Inhabited

def Expr.pos : Expr → Position
  | literal _ pos => pos
  | name token => token.pos
  | assign target _ => target.pos
  | ternary condition _ _ => condition.pos
  | logical _ operator _ => operator.pos
  | binary _ operator _ => operator.pos
  | unary operator _ => operator.pos
  | group inner => inner.pos
  | call _ paren _ => paren.pos
  | hole => {}

def Stmt.pos : Stmt → Position
  | expression value => value.pos
  | print value => value.pos
  | declare name _ => name.pos
  | block _ pos => pos
  | branch _ _ _ pos => pos
  | loop _ _ _ pos => pos
  | breakLoop keyword => keyword.pos
  | continueLoop keyword => keyword.pos
  | function name _ _ => name.pos
  | returnValue keyword _ => keyword.pos
  | hole => {}

end Treewalk
