import Treewalk.Yaml.Quotation

/-! Dates and times as plain words. Only whether a word is one matters. -/

namespace Treewalk.Yaml.Timestamp

def isLeap (year : Nat) : Bool :=
  year % 4 == 0 && (year % 100 != 0 || year % 400 == 0)

def daysIn (year month : Nat) : Nat :=
  if month = 2 then if isLeap year then 29 else 28
  else if month = 4 || month = 6 || month = 9 || month = 11 then 30
  else 31

def fixed? (count : Nat) (text : List Char) : Option (Nat × List Char) :=
  let digits := text.take count
  if digits.length = count && digits.all isDigit then
    some (digits.foldl (fun n c => 10 * n + (c.toNat - '0'.toNat)) 0, text.drop count)
  else none

def short? (text : List Char) : Option (Nat × List Char) :=
  fixed? 2 text <|> fixed? 1 text

def char? (c : Char) : List Char → Option (List Char)
  | [] => none
  | first :: rest => if first == c then some rest else none

def date? (text : List Char) : Option (List Char) := do
  let (year, text) ← fixed? 4 text
  let (month, text) ← short? (← char? '-' text)
  let (day, text) ← short? (← char? '-' text)
  if 1 ≤ month && month ≤ 12 && 1 ≤ day && day ≤ daysIn year month then return text else none

def skipFraction : List Char → List Char
  | mark :: digit :: rest =>
    if (mark == '.' || mark == ',') && isDigit digit then rest.dropWhile isDigit
    else mark :: digit :: rest
  | text => text

def time? (text : List Char) : Option (List Char) := do
  let (hour, text) ← short? text
  let (minute, text) ← short? (← char? ':' text)
  let (second, text) ← short? (← char? ':' text)
  if hour < 24 && minute < 60 && second < 60 then return skipFraction text else none

/-- The difference to universal time, and nothing behind it. -/
def isZone (text : List Char) : Bool :=
  match text with
  | ['Z'] => true
  | sign :: rest =>
    (sign == '+' || sign == '-') &&
      (do
        let (hour, text) ← fixed? 2 rest
        let (minute, text) ← fixed? 2 (← char? ':' text)
        return hour ≤ 24 && minute ≤ 60 && text.isEmpty).getD false
  | [] => false

/-- Is a word a day alone, a day and a time in some zone, or a day and a time after spaces? -/
def isTimestamp (word : List Char) : Bool :=
  match date? word with
  | none => false
  | some [] => true
  | some (divider :: rest) =>
    if divider == 'T' || divider == 't' then (time? rest).any isZone
    else divider == ' ' && (time? (rest.dropWhile (· == ' '))).any List.isEmpty

end Treewalk.Yaml.Timestamp
