import Treewalk.Text.Blank
import Treewalk.Text.Quoted

/-! The trace of calls: one line when a call starts and one when it returns. -/

namespace Treewalk

inductive TraceEvent where
  | called (callee : Bytes) (arguments : Nat) (line : Int) (depth : Nat)
  | returned (callee : Bytes) (value : Bytes)
  deriving DecidableEq, Repr

namespace TraceEvent

/-- Characters that cannot stand bare in a line of fields. -/
def needsQuotes : Glyph → Bool
  | .stray _ => true
  | .char c =>
    if c.toNat < 0x80 then c.toNat ≤ 0x20 || c == '=' || c == '"'
    else c == '\uFFFD' || Text.isBlank c || !Text.isPrintable c

/-- The value of a field, quoted when it is empty or could not be told apart otherwise. -/
def fieldText (text : Bytes) : Bytes :=
  if text.isEmpty || (Glyph.decode text).any needsQuotes then Text.quote text else text

def line : TraceEvent → Bytes
  | called callee arguments line depth =>
    .ofString "level=DEBUG msg=call fn=" ++ fieldText callee
      ++ .ofString " args=" ++ .ofNat arguments ++ .ofString " line=" ++ .ofInt line
      ++ .ofString " depth=" ++ .ofNat depth ++ Bytes.newline
  | returned callee value =>
    .ofString "level=DEBUG msg=return fn=" ++ fieldText callee
      ++ .ofString " value=" ++ fieldText value ++ Bytes.newline

end TraceEvent
end Treewalk
