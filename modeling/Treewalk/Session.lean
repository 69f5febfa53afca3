import Treewalk.Machine.Evaluator
import Treewalk.Machine.Start
import Treewalk.Program
import Treewalk.Reporter
import Treewalk.Text.Blank

/-! Sessions: a machine, a reporter and input that is not complete yet. Source texts are run,
evaluated or fed in line by line. -/

namespace Treewalk

structure Session where
  machine : Machine
  reporter : Reporter := {}
  buffer : Bytes := []

namespace Session

def start (options : Machine.Options) : Session :=
  { machine := .start options }

/-- Takes over a machine after a run; the trace of the run goes to the error output. -/
def settle (session : Session) (machine : Machine) : Session :=
  { session with
    machine := { machine with trace := #[] }
    reporter := machine.trace.foldl (fun reporter event => reporter.write event.line)
      session.reporter }

def reportInterrupt (session : Session) (interrupt : Interrupt) : Session :=
  { session with reporter := session.reporter.reportInterrupt interrupt }

def reportDiagnostics (session : Session) (errors : List Diagnostic) : Session :=
  { session with reporter := session.reporter.reportDiagnostics errors }

/-- Runs a computation and reports how it was interrupted, if it was. No result means that the fuel
ran out. -/
def perform {α : Type} (session : Session) (computation : Run α) :
    Option (Except Interrupt α × Session) :=
  match computation session.machine with
  | .value result machine => some (.ok result, session.settle machine)
  | .interrupted interrupt machine =>
    some (.error interrupt, (session.settle machine).reportInterrupt interrupt)
  | .outOfFuel => none

variable [Natives]

def runStatements (fuel : Nat) (session : Session) (statements : List Stmt) :
    Option (Except Interrupt Unit × Session) :=
  session.perform (Machine.interpret fuel statements)

/-- Runs a source text. One with errors in it is not run at all. -/
def run (fuel : Nat) (session : Session) (source : Bytes) : Option Session :=
  let program := Program.ofSource source
  if program.errors.isEmpty then
    (session.runStatements fuel program.statements).map Prod.snd
  else
    some (session.reportDiagnostics program.errors)

/-- Runs a source text; if it is a single expression, yields its value. -/
def evaluate (fuel : Nat) (session : Session) (source : Bytes) : Option (Option Value × Session) :=
  let program := Program.ofSource source
  if program.errors.isEmpty then
    match program.statements with
    | [.expression expr] =>
      (session.perform (Machine.evaluate fuel expr)).map fun
        | (.ok value, session) => (some value, session)
        | (.error _, session) => (none, session)
    | statements => (session.runStatements fuel statements).map fun (_, session) => (none, session)
  else
    some (none, session.reportDiagnostics program.errors)

def isBlankText (text : Bytes) : Bool :=
  (Glyph.decode text).all (Glyph.satisfies Text.isBlank)

/-- The text to run for what has been fed in; none when more has to come first. An expression alone
may do without its semicolon. -/
def completed (source : Bytes) (final : Bool) : Option Bytes :=
  if Diagnostic.anyIncomplete (Program.ofSource source).errors then
    let closed := source ++ utf8 ';'
    if (Program.ofSource closed).errors.isEmpty then some closed
    else if final then some source
    else none
  else some source

/-- Shows a value after its expression was evaluated; null is not shown, and nobody is told when
this fails. -/
def echo (session : Session) : Option Value → Session
  | none | some .null => session
  | some value =>
    let output :=
      match session.machine.output.sink.error? with
      | some _ => session.machine.output.refused
      | none => session.machine.output.add (.echoed (value.text ++ Bytes.newline))
    { session with machine := { session.machine with output } }

/-- Feeds in one line, and runs what has been fed in once it is complete. Says whether more has to
come first. When the line is `final`, incomplete text is run, too. -/
def feed (fuel : Nat) (session : Session) (line : Bytes) (final : Bool) :
    Option (Bool × Session) :=
  let source := session.buffer ++ line ++ Bytes.newline
  if isBlankText source then some (false, { session with buffer := [] })
  else
    match completed source final with
    | none => some (true, { session with buffer := source })
    | some source =>
      let session := { session with buffer := [], reporter := session.reporter.reset }
      (session.evaluate fuel source).map fun (value, session) => (false, session.echo value)

def isPending (session : Session) : Bool :=
  !session.buffer.isEmpty

def clear (session : Session) : Session :=
  { session with buffer := [] }

/-- Takes a line from the machine's own input. -/
def takeLine (session : Session) : LineRead × Session :=
  let (read, input) := session.machine.input.readLine
  (read, { session with machine := { session.machine with input } })

/-- Feeds in the lines of the machine's own input until it ends; programs that read take theirs from
between. What is pending at the end is run in any case. -/
def feedAll : (fuel : Nat) → Session → Option Session
  | 0, _ => none
  | fuel + 1, session =>
    let (read, session) := session.takeLine
    match read, read.line? with
    | .broken _, _ => some session
    | .line _, line => do
      let (_, session) ← session.feed fuel (line.getD []) false
      session.feedAll fuel
    | .last _, none =>
      if session.isPending then (session.feed fuel [] true).map Prod.snd else some session
    | .last _, some line => (session.feed fuel line true).map Prod.snd

end Session
end Treewalk
