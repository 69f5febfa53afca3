import Treewalk.CommandLine.Outcome
import Treewalk.Proofs.LocatedErrors
import Treewalk.Proofs.SourceEvaluation

/-! Runs of a script and what they tell. The exit status says whether there were errors in the text, whether
the program failed or whether it ran to its end, and the error output holds just what belongs to that. -/

namespace Treewalk

/-- The text of an error does not change when it is put together anew from its parts. -/
theorem Reporter.reportDiagnostic_eq (reporter : Reporter) (error : Diagnostic) :
    reporter.reportDiagnostic error = reporter.writeDiagnostic error := by
  unfold reportDiagnostic
  split
  next lexical =>
    have same : Diagnostic.text { token := .onLine .eof [] error.line, defect := .custom error.message, lexical := true } =
        error.text := by
      simp [Diagnostic.text, Diagnostic.whereabouts, Diagnostic.line, Diagnostic.message, Defect.message, Token.onLine, lexical]
    rw [reportOnLine, writeDiagnostic, same, writeDiagnostic]
  next grammar =>
    have same : Diagnostic.text { token := error.token, defect := .custom error.message } = error.text := by
      simp [Diagnostic.text, Diagnostic.whereabouts, Diagnostic.line, Diagnostic.message, Defect.message, grammar]
    rw [reportAt, writeDiagnostic, same, writeDiagnostic]

namespace Reporter

theorem text_write (reporter : Reporter) (text : Bytes) : (reporter.write text).text = reporter.text ++ text := by
  simp [Reporter.text, write]

theorem text_writeDiagnostic (reporter : Reporter) (error : Diagnostic) :
    (reporter.writeDiagnostic error).text = reporter.text ++ (error.text ++ Bytes.newline) :=
  text_write reporter _

/-- One line for each error, in order. -/
theorem text_reportDiagnostics (reporter : Reporter) (errors : List Diagnostic) :
    (reporter.reportDiagnostics errors).text = reporter.text ++ errors.flatMap fun error => error.text ++ Bytes.newline := by
  induction errors generalizing reporter with
  | nil => simp [reportDiagnostics]
  | cons error errors ih =>
    change ((reporter.reportDiagnostic error).reportDiagnostics errors).text = _
    rw [ih, reportDiagnostic_eq, text_writeDiagnostic, List.flatMap_cons, List.append_assoc]

theorem hadError_reportDiagnostics (reporter : Reporter) {errors : List Diagnostic} (some : errors ≠ []) :
    (reporter.reportDiagnostics errors).hadError = true := by
  induction errors generalizing reporter with
  | nil => exact absurd rfl some
  | cons error errors ih =>
    change ((reporter.reportDiagnostic error).reportDiagnostics errors).hadError = true
    by_cases last : errors = []
    · subst last
      exact congrArg Reporter.hadError (reportDiagnostic_eq reporter error)
    · exact ih _ last

theorem text_reportRuntimeError (reporter : Reporter) (error : RuntimeError) :
    (reporter.reportRuntimeError error).text = reporter.text ++ (error.text ++ Bytes.newline ++
      if error.hint = [] then [] else .ofString "    " ++ error.hint ++ Bytes.newline) := by
  have first : (reporter.reportFailureAt error.token error.message).text = reporter.text ++ (error.text ++ Bytes.newline) :=
    text_write reporter _
  unfold reportRuntimeError
  dsimp only
  split
  next none => rw [first, if_pos (List.isEmpty_iff.mp none), List.append_nil]
  next hinted =>
    rw [writeLine, text_write, first, if_neg (fun none => hinted (List.isEmpty_iff.mpr none)), List.append_assoc]

theorem exitStatus_reportRuntimeError (error : RuntimeError) :
    (Reporter.reportRuntimeError {} error).exitStatus = .software := by
  unfold reportRuntimeError
  dsimp only
  split <;> rfl

end Reporter

theorem Diagnostic.listText_lines {errors : List Diagnostic} (some : errors ≠ []) :
    errors.flatMap (fun error => error.text ++ Bytes.newline) = listText errors ++ Bytes.newline := by
  cases errors with
  | nil => exact absurd rfl some
  | cons error errors =>
    change _ = Bytes.joinWith Bytes.newline (error.text :: errors.map Diagnostic.text) ++ Bytes.newline
    induction errors generalizing error with
    | nil => simp [Bytes.joinWith]
    | cons next errors ih =>
      rw [List.flatMap_cons, ih next (List.cons_ne_nil _ _)]
      simp [Bytes.joinWith]

namespace Machine
open Run

structure Untraced (before after : Machine) : Prop where
  same : after.tracing = before.tracing
  silent : before.tracing = false → after.trace = before.trace

theorem untraced_allows : Allows Untraced := by
  apply Allows.of_quiet
  case quiet =>
    intro machine heap input nextId ticks
    exact ⟨rfl, fun _ => rfl⟩
  case trans =>
    intro first second third one two
    exact ⟨two.same.trans one.same, fun off => (two.silent (one.same.trans off)).trans (one.silent off)⟩
  case within =>
    intro before after frame inside
    exact ⟨inside.same, inside.silent⟩
  case asCall =>
    intro before after inside
    exact ⟨inside.same, inside.silent⟩
  case write =>
    intro text before after ends
    rcases write_after ends with rfl | rfl <;> exact ⟨rfl, fun _ => rfl⟩
  case record =>
    intro event before after ends
    cases ends
    dsimp only
    split
    next on => exact ⟨rfl, fun off => absurd on (by simp [off])⟩
    next => exact ⟨rfl, fun _ => rfl⟩
  case native =>
    intro index arguments before after ends
    cases ends
    exact ⟨rfl, fun _ => rfl⟩

theorem interpret_untraced {fuel : Nat} {stmts : List Stmt} {before after : Machine}
    (ends : (interpret fuel stmts before).after? = some after) : Untraced before after := by
  unfold interpret at ends
  split at ends
  next cause last stops =>
    cases ends
    have inside := (runsChange untraced_allows fuel).executeAll stmts before last (by rw [stops]; rfl)
    exact ⟨inside.same, inside.silent⟩
  next => exact (runsChange untraced_allows fuel).executeAll stmts before after ends

/-- The program fails with the error, or with one of its host that passes as it is and is or holds the error. -/
def FailsWith (start : Machine) (cause : Interrupt) (error : RuntimeError) : Prop :=
  cause.runtimeError? = some error ∧ (cause = .failure error ∨ start.Relays cause)

theorem failsWith_of_fails {places : Position → Prop} {start : Machine} {cause : Interrupt} (fails : Fails places start cause) :
    ∃ error, start.FailsWith cause error := by
  rcases fails with ⟨error, rfl, _⟩ | relays
  · exact ⟨error, rfl, .inl rfl⟩
  · obtain ⟨error, held⟩ := Option.ne_none_iff_exists'.mp relays.1
    exact ⟨error, held, .inr relays⟩

variable {options : Options} (plain : options.hostFunctions = false)
include plain

theorem start_eq : start options = builtins.foldl install (bare options) := by
  unfold start
  simp [plain]

theorem start_silent : (start options).trace = #[] ∧ (start options).tracing = options.tracing := by
  rw [start_eq plain]
  exact ⟨rfl, rfl⟩

/-- A new machine binds the built-in functions and nothing else. -/
theorem start_names :
    (start options).heap.localNames (start options).globals = builtins.map fun entry => Bytes.ofString entry.1 := by
  rw [start_eq plain]
  rfl

end Machine

namespace Session
open Machine

variable {options : Machine.Options} {fuel : Nat} {source : Bytes} {after : Session}

theorem settle_untraced (session : Session) {machine : Machine} (silent : machine.trace = #[]) :
    session.settle machine = { session with machine } := by
  unfold settle
  rw [silent]
  cases machine
  simp_all

/-- How a new session without a trace runs a source: it has errors, or it ends or fails. -/
theorem run_start (plain : options.hostFunctions = false) (off : options.tracing = false)
    (ends : (start options).run fuel source = some after) :
    ((Program.ofSource source).errors ≠ [] ∧ after = (start options).reportDiagnostics (Program.ofSource source).errors) ∨
    (Program.ofSource source).errors = [] ∧
      ((∃ machine, interpret fuel (Program.ofSource source).statements (.start options) = .value () machine ∧
          after = { machine }) ∨
        ∃ cause error machine, interpret fuel (Program.ofSource source).statements (.start options) =
            .interrupted cause machine ∧ (Machine.start options).FailsWith cause error ∧
          after = { machine, reporter := Reporter.reportRuntimeError {} error }) := by
  rcases run_cases ends with faulty | ⟨clean, result, performed⟩
  · exact .inl faulty
  · refine .inr ⟨clean, ?_⟩
    have silent : ∀ {machine : Machine}, (interpret fuel (Program.ofSource source).statements (.start options)).after? =
        some machine → machine.trace = #[] := fun left =>
      ((interpret_untraced left).silent ((start_silent plain).2.trans off)).trans (start_silent plain).1
    rcases perform_cases performed with ⟨_, machine, ended, _, rfl⟩ | ⟨cause, machine, stops, _, rfl⟩
    · exact .inl ⟨machine, ended, settle_untraced _ (silent (congrArg Outcome.after? ended))⟩
    · obtain ⟨error, fails⟩ := failsWith_of_fails (interpret_fails plain (Program.ofSource_located source) stops)
      refine .inr ⟨cause, error, machine, stops, fails, ?_⟩
      rw [settle_untraced _ (silent (congrArg Outcome.after? stops))]
      unfold reportInterrupt Reporter.reportInterrupt
      rw [fails.1]
      rfl

end Session

namespace CommandLine
open Machine

/-- What the exit status and the error output tell of a program that was to be run from `start`. -/
structure Tells (fuel : Nat) (program : Program) (start : Machine) (outcome : Outcome) : Prop where
  /-- There were errors in the text. -/
  refused : outcome.status.code = 65 ↔ program.errors ≠ []
  /-- Then nothing was run, and the errors are listed. -/
  unrun : outcome.status.code = 65 → outcome.output = [] ∧ outcome.machine = some start ∧
    start.heap.localNames start.globals = (builtins.map fun entry => Bytes.ofString entry.1) ∧
    outcome.diagnostics = Diagnostic.listText program.errors ++ Bytes.newline
  /-- The program failed. -/
  failed : outcome.status.code = 70 ↔
    program.errors = [] ∧ ∃ cause after, interpret fuel program.statements start = .interrupted cause after
  /-- Then the failure is told, and its hint if there is one. -/
  told : outcome.status.code = 70 → ∃ cause error after,
    interpret fuel program.statements start = .interrupted cause after ∧ start.FailsWith cause error ∧
    outcome.diagnostics = error.text ++ Bytes.newline ++
      if error.hint = [] then [] else .ofString "    " ++ error.hint ++ Bytes.newline
  /-- The program ran to its end. -/
  finished : outcome.status.code = 0 ↔
    program.errors = [] ∧ ∃ after, interpret fuel program.statements start = .value () after
  /-- Then nothing is told. -/
  silent : outcome.status.code = 0 → outcome.diagnostics = []

variable {fuel : Nat}

theorem tells_errors {options : Options} (plain : options.hostFunctions = false) {program : Program}
    (faulty : program.errors ≠ []) :
    let session := (Session.start options).reportDiagnostics program.errors
    Tells fuel program (.start options) (.ofSession session.reporter.exitStatus session) := by
  intro session
  have status : session.reporter.exitStatus = .dataError :=
    if_pos (Reporter.hadError_reportDiagnostics _ faulty)
  rw [status]
  refine ⟨iff_of_true rfl faulty, fun _ => ⟨?_, rfl, start_names plain, ?_⟩,
    iff_of_false nofun fun clean => faulty clean.1, nofun, iff_of_false nofun fun clean => faulty clean.1, nofun⟩
  · change (Machine.start options).output.text = []
    rw [start_eq plain]
    rfl
  · exact (Reporter.text_reportDiagnostics {} program.errors).trans (Diagnostic.listText_lines faulty)

theorem tells_failure {start after : Machine} {program : Program} {cause : Interrupt} {error : RuntimeError}
    (clean : program.errors = []) (stops : interpret fuel program.statements start = .interrupted cause after)
    (fails : start.FailsWith cause error) :
    let session : Session := { machine := after, reporter := Reporter.reportRuntimeError {} error }
    Tells fuel program start (.ofSession session.reporter.exitStatus session) := by
  intro session
  have status : session.reporter.exitStatus = .software := Reporter.exitStatus_reportRuntimeError error
  have unfinished : ¬ ∃ last, interpret fuel program.statements start = .value () last := by
    rintro ⟨last, ended⟩
    cases ended.symm.trans stops
  rw [status]
  exact ⟨iff_of_false nofun (absurd clean), nofun, iff_of_true rfl ⟨clean, _, after, stops⟩,
    fun _ => ⟨cause, error, after, stops, fails, Reporter.text_reportRuntimeError {} error⟩,
    iff_of_false nofun fun finished => unfinished finished.2, nofun⟩

theorem tells_end {start after : Machine} {program : Program} (clean : program.errors = [])
    (ended : interpret fuel program.statements start = .value () after) :
    Tells fuel program start (.ofSession ({} : Reporter).exitStatus { machine := after }) := by
  have unfailed : ¬ ∃ cause last, interpret fuel program.statements start = .interrupted cause last := by
    rintro ⟨cause, last, stops⟩
    cases ended.symm.trans stops
  exact ⟨iff_of_false nofun (absurd clean), nofun, iff_of_false nofun fun failed => unfailed failed.2, nofun,
    iff_of_true rfl ⟨clean, after, ended⟩, fun _ => rfl⟩

/-- The exit status and the error output of a run of a script tell all there is to tell: whether its text has
errors, whether the program failed or whether it ran to its end. -/
theorem run_tells {surroundings : Surroundings} {arguments : List Bytes} {line : CommandLine} {settings : Settings}
    {script source : Bytes} {input : Input} {outcome : Outcome}
    (asked : parse surroundings.defaultSettingsPath arguments = .ok line)
    (loaded : Settings.load surroundings.toEnvironment surroundings.read line.settingsPath surroundings.decode = .ok settings)
    (untraced : line.trace = false ∧ settings.trace = false) (unshown : line.showTrees = false)
    (named : line.scripts = [script]) (readable : sourceOf surroundings script = .ok (source, input))
    (ends : run fuel surroundings arguments = some outcome) :
    Tells fuel (.ofSource source) (.start (line.machineOptions settings surroundings input)) outcome := by
  have plain : (line.machineOptions settings surroundings input).hostFunctions = false := rfl
  have off : (line.machineOptions settings surroundings input).tracing = false := by
    simp [machineOptions, untraced]
  unfold run at ends
  simp only [asked, loaded, perform, named, readable, unshown, Bool.false_eq_true, if_false] at ends
  obtain ⟨session, ran, rfl⟩ := Option.map_eq_some_iff.mp ends
  rcases Session.run_start plain off ran with ⟨faulty, rfl⟩ | ⟨clean, ⟨_, ended, rfl⟩ | ⟨_, _, _, stops, fails, rfl⟩⟩
  · exact tells_errors plain faulty
  · exact tells_end clean ended
  · exact tells_failure clean stops fails

/-- The script `prnt(1);` from the input fails, with a hint. -/
theorem misspelledPrint_tells :
    let surroundings : Surroundings := { read := fun path => .error ⟨path, .missing⟩, input := ⟨.ofString "prnt(1);", false⟩ }
    let line : CommandLine := { settingsPath := [], scripts := [inputScript] }
    let told := Bytes.ofString "[line 1] Runtime error: Undefined variable 'prnt'.\n    Did you mean 'print'?\n"
    ∃ outcome, run 20 surroundings [inputScript] = some outcome ∧ outcome.status.code = 70 ∧ outcome.diagnostics = told ∧
      Tells 20 (.ofSource (.ofString "prnt(1);"))
        (.start (line.machineOptions { historyFile := [] } surroundings ⟨[], false⟩)) outcome := by
  intro surroundings line told
  have fails : (run 20 surroundings [inputScript]).map (fun outcome => (outcome.status, outcome.diagnostics)) =
      some (.software, told) := by
    decide +kernel
  have loaded : Settings.load surroundings.toEnvironment surroundings.read line.settingsPath surroundings.decode =
      .ok { historyFile := [] } := by
    decide +kernel
  obtain ⟨outcome, ends, same⟩ := Option.map_eq_some_iff.mp fails
  obtain ⟨status, diagnostics⟩ := Prod.mk.inj same
  have code : outcome.status.code = 70 := by rw [status]; rfl
  exact ⟨outcome, ends, code, diagnostics, run_tells rfl loaded ⟨rfl, rfl⟩ rfl rfl rfl ends⟩

end CommandLine
end Treewalk
