import Treewalk.Yaml.Plain

/-! Quoted texts. Between single quotes a quote is written twice; between double quotes a backslash
starts an escape. Line ends are folded as in texts without quotes. -/

namespace Treewalk.Yaml

def isDigit (c : Char) : Bool :=
  '0' ≤ c && c ≤ '9'

def digit? (base : Nat) (c : Char) : Option Nat :=
  let value :=
    if isDigit c then c.toNat - '0'.toNat
    else if 'a' ≤ c && c ≤ 'z' then c.toNat - 'a'.toNat + 10
    else if 'A' ≤ c && c ≤ 'Z' then c.toNat - 'A'.toNat + 10
    else base
  if value < base then some value else none

namespace Quotation

def single : (taken : List Char) → Gap → List Spot → Except Obstacle (Found (List Char))
  | _, _, [] => .error ⟨.openQuotation, []⟩
  | taken, gap, spot :: rest =>
    if spot.isBlank then single taken (gap.addBlank spot.char) rest
    else if spot.isBreak then single taken (gap.addBreak spot.shownBreak) rest
    else if gap.lineEnded && Spot.atDocument (spot :: rest) then
      .error ⟨.documentInQuotation, spot :: rest⟩
    else
      let taken := gap.text.reverse ++ taken
      if spot.char == '\'' then
        match rest with
        | [] => .ok ⟨taken.reverse, []⟩
        | next :: behind =>
          if next.char == '\'' then single ('\'' :: taken) {} behind
          else .ok ⟨taken.reverse, rest⟩
      else single (spot.char :: taken) {} rest

inductive Escape where
  | char (c : Char)
  /-- The code point follows in so many hexadecimal digits. -/
  | codePoint (digits : Nat)

def Escape.ofChar? : Char → Option Escape
  | '0' => some (char '\x00')
  | 'a' => some (char '\x07')
  | 'b' => some (char '\x08')
  | 't' | '\t' => some (char '\t')
  | 'n' => some (char '\n')
  | 'v' => some (char '\x0b')
  | 'f' => some (char '\x0c')
  | 'r' => some (char '\r')
  | 'e' => some (char '\x1b')
  | ' ' => some (char ' ')
  | '"' => some (char '"')
  | '\'' => some (char '\'')
  | '\\' => some (char '\\')
  | 'N' => some (char '\u0085')
  | '_' => some (char '\u00a0')
  | 'L' => some (char '\u2028')
  | 'P' => some (char '\u2029')
  | 'x' => some (codePoint 2)
  | 'u' => some (codePoint 4)
  | 'U' => some (codePoint 8)
  | _ => none

inductive State where
  | outside
  /-- Behind a backslash. -/
  | escape
  /-- So many more digits are to come for a code point of which the first ones are read. -/
  | digits (awaited code : Nat)

def double : State → (taken : List Char) → Gap → List Spot → Except Obstacle (Found (List Char))
  | .outside, _, _, [] => .error ⟨.openQuotation, []⟩
  | .escape, _, _, [] => .error ⟨.unknownEscape, []⟩
  | .digits .., _, _, [] => .error ⟨.badDigits, []⟩
  | .outside, taken, gap, spot :: rest =>
    if spot.isBlank then double .outside taken (gap.addBlank spot.char) rest
    else if spot.isBreak then double .outside taken (gap.addBreak spot.shownBreak) rest
    else if gap.lineEnded && Spot.atDocument (spot :: rest) then
      .error ⟨.documentInQuotation, spot :: rest⟩
    else
      let taken := gap.text.reverse ++ taken
      if spot.char == '"' then .ok ⟨taken.reverse, rest⟩
      else if spot.char == '\\' then double .escape taken {} rest
      else double .outside (spot.char :: taken) {} rest
  | .escape, taken, _, spot :: rest =>
    if spot.isBreak then double .outside taken { lineEnded := true, escaped := true } rest
    else match Escape.ofChar? spot.char with
      | none => .error ⟨.unknownEscape, spot :: rest⟩
      | some (.char c) => double .outside (c :: taken) {} rest
      | some (.codePoint digits) => double (.digits digits 0) taken {} rest
  | .digits awaited code, taken, _, spot :: rest =>
    match digit? 16 spot.char with
    | none => .error ⟨.badDigits, spot :: rest⟩
    | some digit =>
      let code := 16 * code + digit
      if awaited > 1 then double (.digits (awaited - 1) code) taken {} rest
      else if code.isValidChar then double .outside (Char.ofNat code :: taken) {} rest
      else .error ⟨.badEscapedCodePoint, spot :: rest⟩

end Quotation
end Treewalk.Yaml
