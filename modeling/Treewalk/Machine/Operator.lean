import Treewalk.RuntimeError
import Treewalk.Value

/-! What the operators of expressions compute. -/

namespace Treewalk.Operator

def maxRepetition : Nat := 0x40000000

/-- A string repeated so often; a negative count gives the empty string, as zero does. -/
def repetition (operator : Token) (text : Bytes) (count : Float) : Except RuntimeError Value :=
  match Decimal.Reading.ofFloat count with
  | .nan => .error ⟨operator, .fractionalRepetition⟩
  | .infinite negative =>
    if negative || text.isEmpty then .ok (.string [])
    else .error ⟨operator, .oversizedRepetition⟩
  | .finite negative magnitude =>
    match magnitude.toNat? with
    | none => .error ⟨operator, .fractionalRepetition⟩
    | some times =>
      if negative || text.isEmpty then .ok (.string [])
      else if maxRepetition < text.length * times then .error ⟨operator, .oversizedRepetition⟩
      else .ok (.string (List.replicate times text).flatten)

def arithmetic (operator : Token) (left right : Float) : Except RuntimeError Value :=
  match operator.kind with
  | .minus => .ok (.number (left - right))
  | .slash =>
    if right == 0.0 then .error ⟨operator, .divisionByZero⟩ else .ok (.number (left / right))
  | .greater => .ok (.bool (left > right))
  | .greaterEqual => .ok (.bool (left ≥ right))
  | .less => .ok (.bool (left < right))
  | .lessEqual => .ok (.bool (left ≤ right))
  | _ => .error ⟨operator, .unknownOperator⟩

def sum (operator : Token) : Value → Value → Except RuntimeError Value
  | .string left, .string right => .ok (.string (left ++ right))
  | .number left, .number right => .ok (.number (left + right))
  | _, _ => .error ⟨operator, .mixedOperands⟩

def product (operator : Token) : Value → Value → Except RuntimeError Value
  | .string text, .number count => repetition operator text count
  | .number count, .string text => repetition operator text count
  | .number left, .number right => .ok (.number (left * right))
  | _, _ => .error ⟨operator, .notNumber⟩

def binary (operator : Token) (left right : Value) : Except RuntimeError Value :=
  match operator.kind with
  | .equalEqual => .ok (.bool (left.equals right))
  | .bangEqual => .ok (.bool (!left.equals right))
  | .plus => sum operator left right
  | .star => product operator left right
  | _ =>
    match left, right with
    | .number left, .number right => arithmetic operator left right
    | _, _ => .error ⟨operator, .notNumber⟩

def unary (operator : Token) (operand : Value) : Except RuntimeError Value :=
  match operator.kind with
  | .minus =>
    match operand with
    | .number value => .ok (.number (-value))
    | _ => .error ⟨operator, .notNumber⟩
  | .bang => .ok (.bool (!operand.isTruthy))
  | _ => .error ⟨operator, .unknownUnaryOperator⟩

/-- Does the left side of a logical operator decide alone? -/
def decides (operator : Token) (left : Value) : Bool :=
  if operator.kind == .orWord then left.isTruthy else !left.isTruthy

end Treewalk.Operator
