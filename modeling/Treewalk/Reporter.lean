import Treewalk.Diagnostic
import Treewalk.Machine

/-! Diagnostics of a whole run: the lines shown to the user, and what kinds of error there were,
from which the exit status follows. -/

namespace Treewalk

structure Reporter where
  /-- What has been written to the error output. -/
  written : Array Bytes := #[]
  hadError : Bool := false
  hadRuntimeError : Bool := false

/-- The statuses with which the program ends. -/
inductive ExitStatus where
  | ok | usage | dataError | noInput | software | config
  deriving DecidableEq, Repr

def ExitStatus.code : ExitStatus → Nat
  | ok => 0
  | usage => 64
  | dataError => 65
  | noInput => 66
  | software => 70
  | config => 78

namespace Reporter

def write (reporter : Reporter) (text : Bytes) : Reporter :=
  { reporter with written := reporter.written.push text }

def writeLine (reporter : Reporter) (text : Bytes) : Reporter :=
  reporter.write (text ++ Bytes.newline)

def text (reporter : Reporter) : Bytes :=
  reporter.written.toList.flatten

def writeDiagnostic (reporter : Reporter) (error : Diagnostic) : Reporter :=
  { reporter.writeLine error.text with hadError := true }

def reportOnLine (reporter : Reporter) (line : Int) (message : Bytes) : Reporter :=
  reporter.writeDiagnostic
    { token := .onLine .eof [] line, defect := .custom message, lexical := true }

def reportAt (reporter : Reporter) (token : Token) (message : Bytes) : Reporter :=
  reporter.writeDiagnostic { token, defect := .custom message }

/-- An error is reported from its parts. -/
def reportDiagnostic (reporter : Reporter) (error : Diagnostic) : Reporter :=
  if error.lexical then reporter.reportOnLine error.line error.message
  else reporter.reportAt error.token error.message

def reportDiagnostics (reporter : Reporter) (errors : List Diagnostic) : Reporter :=
  errors.foldl reportDiagnostic reporter

def reportFailureAt (reporter : Reporter) (token : Token) (message : Bytes) : Reporter :=
  { reporter.writeLine (RuntimeError.mk token (.custom message [])).text with hadRuntimeError := true }

/-- An error of the running program, with its hint on a line of its own. -/
def reportRuntimeError (reporter : Reporter) (error : RuntimeError) : Reporter :=
  let reporter := reporter.reportFailureAt error.token error.message
  if error.hint.isEmpty then reporter
  else reporter.writeLine (.ofString "    " ++ error.hint)

def reportHostError (reporter : Reporter) (message : Bytes) : Reporter :=
  { reporter.writeLine (.ofString "error: " ++ message) with hadRuntimeError := true }

def reportInterrupt (reporter : Reporter) (interrupt : Interrupt) : Reporter :=
  match interrupt.runtimeError? with
  | some error => reporter.reportRuntimeError error
  | none => reporter.reportHostError interrupt.hostText

def reset (reporter : Reporter) : Reporter :=
  { reporter with hadError := false, hadRuntimeError := false }

/-- Errors in the text come first: a program that has any never runs. -/
def exitStatus (reporter : Reporter) : ExitStatus :=
  if reporter.hadError then .dataError
  else if reporter.hadRuntimeError then .software
  else .ok

end Reporter
end Treewalk
