import Treewalk.Decimal.Layout
import Treewalk.Tree

/-! The values that a running program computes with. -/

namespace Treewalk

/-- The number of a frame of variables. -/
abbrev FrameId := Nat

inductive ValueKind where
  | null | bool | number | string | callable | uninitialized | unknown
  deriving DecidableEq, Repr

namespace ValueKind

def all : List ValueKind :=
  [null, bool, number, string, callable, uninitialized]

def text : ValueKind → String
  | null => "null"
  | bool => "bool"
  | number => "number"
  | string => "string"
  | callable => "callable"
  | uninitialized => "uninitialized"
  | unknown => "unknown"

def ofIndex : Int → ValueKind
  | .ofNat n => all[n]?.getD unknown
  | .negSucc _ => unknown

end ValueKind

/-- What the functions that come with a machine do. An `inert` one ignores its arguments and yields
null; a `foreign` one belongs to the host, which knows it by its number. -/
inductive Primitive where
  | clock | print | input | fail | raise | apply | inert
  | foreign (index : Nat)
  deriving DecidableEq, Repr

structure Native where
  id : Nat
  name : Bytes
  arity : Int
  primitive : Primitive
  deriving DecidableEq, Repr

/-- A declared function with the frame in which it was declared. -/
structure Closure where
  id : Nat
  name : Bytes
  parameters : List Bytes
  body : List Stmt
  frame : FrameId
  deriving Repr

inductive Callable where
  | function (closure : Closure)
  | native (builtin : Native)
  deriving Repr

namespace Callable

/-- No two callables are made with the same number. -/
def id : Callable → Nat
  | function closure => closure.id
  | native builtin => builtin.id

def arity : Callable → Int
  | function closure => closure.parameters.length
  | native builtin => builtin.arity

def text : Callable → Bytes
  | function closure => .ofString "<fn " ++ closure.name ++ .ofString ">"
  | native builtin => .ofString "<native fn " ++ builtin.name ++ .ofString ">"

def isNative : Callable → Bool
  | function _ => false
  | native _ => true

end Callable

/-- `uninitialized` marks a variable that was declared and never assigned. A `hollow` value counts
as a callable and cannot be called; a `foreign` one is of no kind that the language has. -/
inductive Value where
  | null
  | bool (value : Bool)
  | number (value : Float)
  | string (value : Bytes)
  | callable (value : Callable)
  | hollow
  | uninitialized
  | foreign
  deriving Repr, Inhabited

/-- Numbers are written with the fewest digits that identify them: positionally when the leading
digit stands for a power of ten from 10⁻⁴ to 10¹⁵, and otherwise with an exponent. -/
def numberText (x : Float) : Bytes :=
  match Decimal.Reading.ofFloat x with
  | .nan => .ofString "nan"
  | .infinite negative => .ofString (if negative then "-inf" else "inf")
  | .finite negative magnitude =>
    let digits := magnitude.shortest
    if -4 ≤ digits.leadingPower && digits.leadingPower ≤ 15 then
      Decimal.signed negative digits.positional
    else
      Decimal.signed negative digits.scientific

namespace Value

def kind : Value → ValueKind
  | null => .null
  | bool _ => .bool
  | number _ => .number
  | string _ => .string
  | callable _ => .callable
  | hollow => .callable
  | uninitialized => .uninitialized
  | foreign => .unknown

def text : Value → Bytes
  | null => .ofString "null"
  | bool value => .ofString (if value then "true" else "false")
  | number value => numberText value
  | string value => value
  | callable value => value.text
  | hollow => .ofString "<fn>"
  | uninitialized => .ofString "<uninitialized>"
  | foreign => .ofString "<unknown>"

/-- Everything counts as true but null and false. -/
def isTruthy : Value → Bool
  | null => false
  | bool value => value
  | _ => true

/-- Values of different kinds differ, callables are compared by identity, and a foreign value is
equal to none. -/
def equals : Value → Value → Bool
  | null, null => true
  | bool a, bool b => a == b
  | number a, number b => a == b
  | string a, string b => a == b
  | callable a, callable b => a.id == b.id
  | hollow, hollow => true
  | uninitialized, uninitialized => true
  | _, _ => false

def bare (index : Int) : Value :=
  match ValueKind.ofIndex index with
  | .null => null
  | .bool => bool false
  | .number => number 0.0
  | .string => string []
  | .callable => hollow
  | .uninitialized => uninitialized
  | .unknown => foreign

def toBool : Value → Bool
  | bool value => value
  | _ => false

def toNumber : Value → Float
  | number value => value
  | _ => 0.0

def toBytes : Value → Bytes
  | string value => value
  | _ => []

def callable? : Value → Option Callable
  | callable value => some value
  | _ => none

end Value

def Literal.toValue : Literal → Value
  | null => .null
  | bool value => .bool value
  | number value => .number value
  | string value => .string value
  | foreign => .null

end Treewalk
