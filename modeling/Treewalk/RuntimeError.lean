import Treewalk.Token

/-! What can go wrong while a program runs. -/

namespace Treewalk

/-- A failure that is not the program's own: the outside world, or a tree with holes in it. -/
inductive HostFault where
  | failure
  | missingStatement
  | missingExpression
  | missingArgument
  | custom (message : Bytes)
  /-- It holds an error of a running program, of which the last three are parts. -/
  | wrapping (text : Bytes) (token : Token) (message hint : Bytes)
  deriving DecidableEq, Repr

def HostFault.message : HostFault → Bytes
  | failure => .ofString "host failure"
  | missingStatement => .ofString "unsupported statement <nil>"
  | missingExpression => .ofString "unsupported expression <nil>"
  | missingArgument => .ofString "missing argument"
  | custom message => message
  | wrapping text _ _ _ => text

inductive Cause where
  /-- Perhaps with a name that may have been meant. -/
  | undefinedVariable (guess : Option Bytes)
  | uninitializedVariable
  | mixedOperands
  | notNumber
  | divisionByZero
  | fractionalRepetition
  | oversizedRepetition
  | unknownOperator
  | unknownUnaryOperator
  | notCallable
  | wrongArity (expected : Int) (found : Nat)
  | stackOverflow
  | misplacedBreak
  | misplacedContinue
  | misplacedReturn
  | host (fault : HostFault)
  | custom (message hint : Bytes)
  deriving DecidableEq, Repr

/-- A failure of the running program, at the token that caused it. -/
structure RuntimeError where
  token : Token
  cause : Cause
  deriving DecidableEq, Repr

namespace RuntimeError

def message (error : RuntimeError) : Bytes :=
  let lexeme := error.token.lexeme
  match error.cause with
  | .undefinedVariable _ => .ofString "Undefined variable '" ++ lexeme ++ .ofString "'."
  | .uninitializedVariable =>
    .ofString "Attempted to access uninitialized variable '" ++ lexeme ++ .ofString "'."
  | .mixedOperands => .ofString "Operands must be two numbers or two strings."
  | .notNumber => .ofString "Operand must be a number."
  | .divisionByZero => .ofString "Can't divide by zero."
  | .fractionalRepetition => .ofString "Can't multiply string by non-integer amount."
  | .oversizedRepetition => .ofString "String repetition result too large."
  | .unknownOperator => .ofString "Unknown operator '" ++ lexeme ++ .ofString "'."
  | .unknownUnaryOperator => .ofString "Unknown unary operator '" ++ lexeme ++ .ofString "'."
  | .notCallable => .ofString "Can only call functions and classes."
  | .wrongArity expected found =>
    .ofString "Expected " ++ .ofInt expected ++ .ofString " arguments but got " ++ .ofNat found
      ++ .ofString "."
  | .stackOverflow => .ofString "Stack overflow."
  | .misplacedBreak => .ofString "'break' used outside loop."
  | .misplacedContinue => .ofString "'continue' used outside loop."
  | .misplacedReturn => .ofString "'return' used outside function."
  | .host fault => fault.message
  | .custom message _ => message

/-- A further remark on the error; empty when there is none. -/
def hint (error : RuntimeError) : Bytes :=
  match error.cause with
  | .undefinedVariable (some guess) => .ofString "Did you mean '" ++ guess ++ .ofString "'?"
  | .custom _ hint => hint
  | _ => []

def line (error : RuntimeError) : Int :=
  error.token.pos.line

def text (error : RuntimeError) : Bytes :=
  .ofString "[line " ++ .ofInt error.line ++ .ofString "] Runtime error: " ++ error.message

end RuntimeError

/-- The error of a running program that a failure holds. -/
def HostFault.held? : HostFault → Option RuntimeError
  | wrapping _ token message hint => some ⟨token, .custom message hint⟩
  | _ => none

/-- An error that a reader or writer hands over. It says what went wrong there, or holds an error of
a running program, or is one. -/
inductive HostError where
  | own (message : Bytes)
  | wrapping (text : Bytes) (token : Token) (message hint : Bytes)
  | raised (token : Token) (message hint : Bytes)
  deriving DecidableEq, Repr

namespace HostError

def refusedWrite : HostError :=
  own (.ofString "host write failure")

def brokenRead : HostError :=
  own (.ofString "host read failure")

def message : HostError → Bytes
  | own message => message
  | wrapping text _ _ _ => text
  | raised token message hint => (RuntimeError.mk token (.custom message hint)).text

end HostError
end Treewalk
