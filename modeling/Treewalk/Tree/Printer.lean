import Treewalk.Tree
import Treewalk.Decimal.Layout
import Treewalk.Text.Quoted

/-! Trees as text: every node is a parenthesised list that starts with the name of the node, so the
shape of a tree can be read off. A statement takes one line. -/

namespace Treewalk

def parenthesized (head : Bytes) (parts : List Bytes) : Bytes :=
  utf8 '(' ++ Bytes.joinWith (utf8 ' ') (head :: parts) ++ utf8 ')'

/-- A constant number is written positionally, whatever its size. -/
def numberLiteralText (x : Float) : Bytes :=
  match Decimal.Reading.ofFloat x with
  | .nan => .ofString "NaN"
  | .infinite negative => .ofString (if negative then "-Inf" else "+Inf")
  | .finite negative magnitude => Decimal.signed negative magnitude.shortest.positional

def Literal.text : Literal → Bytes
  | null => .ofString "null"
  | bool value => .ofString (if value then "true" else "false")
  | number value => numberLiteralText value
  | string value => Text.quote value
  | foreign => .ofString "<literal>"

mutual

def Expr.text : Expr → Bytes
  | .literal value _ => value.text
  | .name token => token.lexeme
  | .assign target value => parenthesized (.ofString "=") [target.lexeme, value.text]
  | .ternary condition first second =>
    parenthesized (.ofString "?:") [condition.text, first.text, second.text]
  | .logical left operator right => parenthesized operator.kind.bytes [left.text, right.text]
  | .binary left operator right => parenthesized operator.lexeme [left.text, right.text]
  | .unary operator operand => parenthesized operator.lexeme [operand.text]
  | .group inner => parenthesized (.ofString "group") [inner.text]
  | .call callee _ arguments =>
    parenthesized (.ofString "call") (callee.text :: Expr.textEach arguments)
  | .hole => .ofString "<unknown expr>"

def Expr.textEach : List Expr → List Bytes
  | [] => []
  | expr :: rest => expr.text :: Expr.textEach rest

end

mutual

def Stmt.text : Stmt → Bytes
  | .expression value => parenthesized (.ofString ";") [value.text]
  | .print value => parenthesized (.ofString "print") [value.text]
  | .declare name none => parenthesized (.ofString "var") [name.lexeme]
  | .declare name (some initial) => parenthesized (.ofString "var") [name.lexeme, initial.text]
  | .block body _ => parenthesized (.ofString "block") (Stmt.textEach body)
  | .branch condition consequence none _ =>
    parenthesized (.ofString "if") [condition.text, consequence.text]
  | .branch condition consequence (some alternative) _ =>
    parenthesized (.ofString "if") [condition.text, consequence.text, alternative.text]
  | .loop condition body none _ => parenthesized (.ofString "while") [condition.text, body.text]
  | .loop condition body (some post) _ =>
    parenthesized (.ofString "while") [condition.text, body.text, post.text]
  | .breakLoop _ => .ofString "(break)"
  | .continueLoop _ => .ofString "(continue)"
  | .function name parameters body =>
    let list := utf8 '(' ++ Bytes.joinWith (utf8 ' ') (parameters.map (·.lexeme)) ++ utf8 ')'
    parenthesized (.ofString "fn") (name.lexeme :: list :: Stmt.textEach body)
  | .returnValue _ none => .ofString "(return)"
  | .returnValue _ (some result) => parenthesized (.ofString "return") [result.text]
  | .hole => .ofString "<unknown stmt>"

def Stmt.textEach : List Stmt → List Bytes
  | [] => []
  | stmt :: rest => stmt.text :: Stmt.textEach rest

end

end Treewalk
