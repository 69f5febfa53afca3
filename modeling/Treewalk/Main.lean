import Treewalk.CommandLine.Outcome

/-! The program itself. It gathers what it can see of the world, lets the command line decide, and
writes what came of it. At a terminal it shows prompts and takes one line after the other. -/

namespace Treewalk.Main

def toText (bytes : Bytes) : String :=
  String.ofList bytes.shown

def writeTo (stream : IO.FS.Stream) (bytes : Bytes) : IO Unit := do
  stream.write ⟨bytes.toArray⟩
  stream.flush

def reasonOf : IO.Error → ReadFailure.Reason
  | .noFileOrDirectory .. => .missing
  | .inappropriateType _ code _ => if code = 21 then .isDirectory else .notDirectory
  | error => .other (.ofString error.toString)

def readAt (path : Bytes) : IO (Except ReadFailure Bytes) := do
  try
    return .ok (← IO.FS.readBinFile (toText path)).toList
  catch error =>
    return .error { path, reason := reasonOf error }

/-- The files that a command line may ask for, read beforehand. -/
def gather (line : CommandLine) : IO FileReader := do
  let paths := line.settingsPath :: line.scripts.filter (· != CommandLine.inputScript)
  let found ← paths.mapM fun path => return (path, ← readAt path)
  return fun path => (found.lookup path).getD (.error { path, reason := .missing })

partial def readAll (stream : IO.FS.Stream) (taken : Array UInt8) : IO Bytes := do
  let chunk ← stream.read 65536
  if chunk.isEmpty then return taken.toList
  readAll stream (taken ++ chunk.data)

/-- Shows prompts and feeds lines to a session until there are no more. Programs that read find
nothing, since the lines belong to the session. -/
partial def converse (settings : Settings) (session : Session) : IO Unit := do
  let output ← IO.getStdout
  writeTo output (if session.isPending then settings.continuationPrompt else settings.prompt)
  let line ← (← IO.getStdin).getLine
  if line.isEmpty then writeTo output Bytes.newline
  else
    let text := Bytes.trimEnd [0x0D, 0x0A] (.ofString line)
    match session.feed Machine.ampleFuel text false with
    | none => return ()
    | some (_, session) =>
      writeTo output session.machine.output.text
      writeTo (← IO.getStderr) session.reporter.text
      converse settings
        { session with
          machine := { session.machine with output := {} }
          reporter := { session.reporter with written := #[] } }

/-- Does a command line open a session at the terminal? Then these are its settings. -/
def terminalSettings? (surroundings : Surroundings) (line : CommandLine) (isTerminal : Bool) :
    Option Settings :=
  if isTerminal && line.scripts.isEmpty then
    (Settings.load surroundings.toEnvironment surroundings.read line.settingsPath
      surroundings.decode).toOption
  else none

def start (arguments : List Bytes) : IO ExitStatus := do
  let environment : Environment :=
    { home := (← IO.getEnv "HOME").map Bytes.ofString
      settingsPath := (← IO.getEnv "PLAM_CONFIG").map Bytes.ofString }
  let line? := (CommandLine.parse environment.defaultSettingsPath arguments).toOption
  let stdin ← IO.getStdin
  let isTerminal ← stdin.isTty
  let read ← match line? with
    | some line => gather line
    | none => pure fun path => .error { path, reason := .missing }
  let readsInput := line?.any fun line =>
    !isTerminal || line.scripts.contains CommandLine.inputScript
  let rest ← if readsInput then readAll stdin #[] else pure []
  let started := Float.ofNat (← IO.monoNanosNow) / 1000000000.0
  let surroundings : Surroundings :=
    { environment with read, input := ⟨rest, false⟩, clock := fun _ => started }
  match line?, line?.bind fun line => terminalSettings? surroundings line isTerminal with
  | some line, some settings =>
    converse settings (.start (line.machineOptions settings surroundings surroundings.input))
    return .ok
  | _, _ =>
    match CommandLine.run Machine.ampleFuel surroundings arguments with
    | none => return .software
    | some outcome =>
      writeTo (← IO.getStdout) outcome.output
      writeTo (← IO.getStderr) outcome.diagnostics
      return outcome.status

end Treewalk.Main

def main (arguments : List String) : IO UInt32 := do
  let status ← Treewalk.Main.start (arguments.map Treewalk.Bytes.ofString)
  return status.code.toUInt32
