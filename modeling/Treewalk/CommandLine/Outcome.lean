import Treewalk.CommandLine
import Treewalk.Session
import Treewalk.Settings
import Treewalk.Tree.Printer

/-! What the program does with a command line: it runs a script, shows its trees or holds a session
with the lines of its input. -/

namespace Treewalk

/-- What the program can see of the world. -/
structure Surroundings extends Environment where
  read : FileReader
  input : Input := ⟨[], false⟩
  sink : Sink := .unlimited
  clock : Nat → Float := fun _ => 0.0
  search : FuzzySearch := .standard
  decode : Settings.Decoder := .yaml

namespace CommandLine

/-- How the program ended. -/
structure Outcome where
  status : ExitStatus
  output : Bytes := []
  diagnostics : Bytes := []
  /-- The machine, if one was started and used. -/
  machine : Option Machine := none

namespace Outcome

/-- The usage text was all there was to say. -/
def refused (defaultPath : Bytes) (refusal : Refusal) : Outcome where
  status := if refusal = .help then .ok else .usage
  diagnostics :=
    match refusal.message? with
    | some message => message ++ Bytes.newline ++ usage defaultPath
    | none => usage defaultPath

def gaveUp (status : ExitStatus) (reason : Bytes) : Outcome where
  status := status
  diagnostics := .ofString "plam: " ++ reason ++ Bytes.newline

def ofSession (status : ExitStatus) (session : Session) : Outcome where
  status := status
  output := session.machine.output.text
  diagnostics := session.reporter.text
  machine := some session.machine

end Outcome

/-- The script that stands for the input itself. -/
def inputScript : Bytes := [dash]

/-- The text of a script, and what is left of the input. -/
def sourceOf (surroundings : Surroundings) (script : Bytes) : Except Bytes (Bytes × Input) :=
  if script = inputScript then
    match surroundings.input.ending.error? with
    | some error => .error error.message
    | none => .ok (surroundings.input.rest, surroundings.input.ending.behind)
  else
    match readScript surroundings.read script with
    | .ok source => .ok (source, surroundings.input)
    | .error failure => .error failure.message

/-- Shows the statements of a source, one on each line, unless there are errors in it. -/
def showStatements (session : Session) (source : Bytes) : Outcome :=
  let program := Program.ofSource source
  if program.errors.isEmpty then
    { status := .ok, output := program.statements.flatMap fun stmt => stmt.text ++ Bytes.newline }
  else
    let session := session.reportDiagnostics program.errors
    .ofSession session.reporter.exitStatus session

def machineOptions (line : CommandLine) (settings : Settings) (surroundings : Surroundings)
    (input : Input) : Machine.Options where
  input := input
  maxDepth := settings.maxCallDepth
  sink := surroundings.sink
  tracing := line.trace || settings.trace
  clock := surroundings.clock
  search := surroundings.search

/-- Does what a command line asks for, under settings that were loaded. No outcome means that the
fuel ran out. -/
def perform (fuel : Nat) (surroundings : Surroundings) (settings : Settings) (line : CommandLine) :
    Option Outcome :=
  let start (input : Input) := Session.start (line.machineOptions settings surroundings input)
  match line.scripts with
  | [] => ((start surroundings.input).feedAll fuel).map (.ofSession .ok)
  | script :: _ =>
    match sourceOf surroundings script with
    | .error reason => some (.gaveUp .noInput reason)
    | .ok (source, input) =>
      if line.showTrees then some (showStatements (start input) source)
      else ((start input).run fuel source).map fun session =>
        .ofSession session.reporter.exitStatus session

/-- The whole program, from its arguments to its end. -/
def run (fuel : Nat) (surroundings : Surroundings) (arguments : List Bytes) : Option Outcome :=
  let defaultPath := surroundings.defaultSettingsPath
  match parse defaultPath arguments with
  | .error refusal => some (.refused defaultPath refusal)
  | .ok line =>
    match Settings.load surroundings.toEnvironment surroundings.read line.settingsPath
        surroundings.decode with
    | .error failure => some (.gaveUp .config failure.message)
    | .ok settings => line.perform fuel surroundings settings

end CommandLine
end Treewalk
