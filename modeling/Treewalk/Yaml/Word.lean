import Treewalk.Decimal.Binary
import Treewalk.Yaml.Timestamp

/-! What plain words stand for: nothing, a truth value, a number, a time or themselves. -/

namespace Treewalk.Yaml

inductive Word where
  | null
  | bool (value : Bool)
  | int (value : Int)
  | float (value : Float)
  | timestamp
  /-- The word itself. -/
  | verbatim
  deriving DecidableEq, Repr

namespace Word

def isOneOf (words : List String) (text : List Char) : Bool :=
  words.any fun word => word.toList == text

def natural? (base : Nat) (digits : List Char) : Option Nat :=
  digits.foldlM (fun n c => (digit? base c).map (base * n + ·)) 0

def radix? (letter : Char) : Option Nat :=
  if letter == 'x' || letter == 'X' then some 16
  else if letter == 'o' || letter == 'O' then some 8
  else if letter == 'b' || letter == 'B' then some 2
  else none

/-- A number without a sign; one with a leading zero is octal unless a letter gives its base. -/
def magnitude? : List Char → Option Nat
  | [] => none
  | '0' :: letter :: digit :: rest =>
    match radix? letter with
    | some base => natural? base (digit :: rest)
    | none => natural? 8 (letter :: digit :: rest)
  | '0' :: rest => natural? 8 rest
  | digits => natural? 10 digits

/-- Below this, or down to its opposite, whole numbers with a sign have 64 bits. -/
def signedBound : Nat := 0x8000000000000000

def bounded? (negative : Bool) (magnitude : Nat) : Option Int :=
  if negative then if magnitude ≤ signedBound then some (-magnitude) else none
  else if magnitude < signedBound then some magnitude
  else none

/-- Whole numbers have 64 bits; without a sign all of them may count. -/
def integer? : List Char → Option Int
  | '-' :: rest => (magnitude? rest).bind (bounded? true)
  | '+' :: rest => (magnitude? rest).bind (bounded? false)
  | digits => (magnitude? digits).bind fun n => if n < 2 * signedBound then some n else none

/-- The sign of a binary or octal number may also stand behind the letter for its base. -/
def lateSign? : List Char → Option Int
  | '0' :: letter :: sign :: digit :: rest =>
    let base := if letter == 'b' then some 2 else if letter == 'o' then some 8 else none
    if sign == '-' || sign == '+' then do
      bounded? (sign == '-') (← natural? (← base) (digit :: rest))
    else none
  | _ => none

def signed : List Char → Bool × List Char
  | '-' :: rest => (true, rest)
  | '+' :: rest => (false, rest)
  | text => (false, text)

def exponent? : List Char → Option Int
  | [] => some 0
  | mark :: rest =>
    let (negative, digits) := signed rest
    if (mark == 'e' || mark == 'E') && !digits.isEmpty then
      (natural? 10 digits).map fun n => if negative then -n else n
    else none

/-- The float nearest to `digits * 10 ^ power`, unless that is too large for a float. -/
def nearest? (digits : List Char) (power : Int) : Option Float :=
  match (natural? 10 digits).getD 0 with
  | 0 => some 0.0
  | n =>
    let size := power + (Nat.toDigits 10 n).length
    if size > 310 then none
    else if size < -330 then some 0.0
    else
      let value := Float.ofScientific n (power < 0) power.natAbs
      match Decimal.Reading.ofFloat value with
      | .finite .. => some value
      | _ => none

def decimal? (text : List Char) : Option Float := do
  let (negative, text) := signed text
  let whole := text.takeWhile isDigit
  let behind := text.dropWhile isDigit
  let (fraction, behind) :=
    match behind with
    | '.' :: rest => (rest.takeWhile isDigit, rest.dropWhile isDigit)
    | _ => ([], behind)
  if whole.isEmpty && fraction.isEmpty then none
  else
    let power ← exponent? behind
    let value ← nearest? (whole ++ fraction) (power - fraction.length)
    return if negative then -value else value

def withoutUnderscores (text : List Char) : List Char :=
  text.filter (· != '_')

/-- Does each underscore stand between two digits? -/
def separatesDigits : (behindDigit : Bool) → List Char → Bool
  | _, [] => true
  | behindDigit, c :: rest =>
    (c != '_' || (behindDigit && rest.head?.any isDigit)) && separatesDigits (isDigit c) rest

/-- A whole number if it can be read as one, and else a decimal one. Underscores do not count. -/
def number? (text : List Char) : Option Word :=
  let text := withoutUnderscores text
  (integer? text).map int <|> (decimal? text).map float <|> (lateSign? text).map int

/-- A number that starts with a point. Underscores may only stand between digits. -/
def fraction? (text : List Char) : Option Word :=
  if separatesDigits false text then (decimal? (withoutUnderscores text)).map float else none

def special? (text : List Char) : Option Float :=
  if isOneOf [".inf", ".Inf", ".INF", "+.inf", "+.Inf", "+.INF"] text then some (1.0 / 0.0)
  else if isOneOf ["-.inf", "-.Inf", "-.INF"] text then some (-1.0 / 0.0)
  else if isOneOf [".nan", ".NaN", ".NAN"] text then some (0.0 / 0.0)
  else none

def numeric? (timestamps : Bool) (text : List Char) : Option Word :=
  match text with
  | '.' :: _ => fraction? text
  | first :: _ =>
    if isDigit first || first == '+' || first == '-' then
      if timestamps && Timestamp.isTimestamp text then some timestamp else number? text
    else none
  | [] => none

/-- What a word stands for. Unless timestamps count, a time is just a word. -/
def read (timestamps : Bool) (text : List Char) : Word :=
  if isOneOf ["", "~", "null", "Null", "NULL"] text then null
  else if isOneOf ["true", "True", "TRUE"] text then bool true
  else if isOneOf ["false", "False", "FALSE"] text then bool false
  else match special? text with
    | some value => float value
    | none => (numeric? timestamps text).getD verbatim

end Word
end Treewalk.Yaml
