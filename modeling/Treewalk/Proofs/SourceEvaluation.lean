import Treewalk.Proofs.PlacedKeywords
import Treewalk.Proofs.RestoredFrames

/-! Evaluating a source beside running it. A single expression is evaluated as it stands: the machine is
not put back to the top level by force, and no signal is turned into an error. Nothing comes of that,
since an expression puts the machine back itself and lets no signal out. -/

namespace Treewalk

theorem Interrupt.escaped_eq {cause : Interrupt} (unsignaled : ¬cause.IsSignal) : cause.escaped = cause := by
  cases cause with
  | failure error | host fault => rfl
  | breakLoop keyword | continueLoop keyword | returnValue keyword value => exact absurd trivial unsignaled

namespace Machine

theorem AtTop.eq {machine : Machine} (top : AtTop machine) :
    { machine with frame := machine.globals, depth := 0 } = machine := by
  obtain ⟨frame, depth⟩ := top
  cases machine
  simp_all

private theorem executeAll_expression (fuel : Nat) (expr : Expr) (machine : Machine) :
    executeAll (fuel + 2) [.expression expr] machine =
      (evaluate fuel expr machine).fold (fun _ after => .value () after) .interrupted := by
  rw [executeAll, execute]
  change Run.andThen (Run.andThen (evaluate fuel expr) _) _ machine = _
  unfold Run.andThen
  cases evaluate fuel expr machine <;> rfl

/-- From the top level, a program of one expression ends as the expression does. -/
theorem interpret_expression {machine : Machine} (top : AtTop machine) (fuel : Nat) (expr : Expr) :
    interpret (fuel + 2) [.expression expr] machine =
      (evaluate fuel expr machine).fold (fun _ after => .value () after) .interrupted := by
  rw [interpret_fold, executeAll_expression]
  cases outcome : evaluate fuel expr machine with
  | value result after => rfl
  | outOfFuel => rfl
  | interrupted cause after =>
    have ended : (evaluate fuel expr machine).after? = some after := by rw [outcome]; rfl
    have restored := (runsChange (restored_allows none_restore) fuel).evaluate expr machine after ended
    change Outcome.interrupted cause.escaped _ = Outcome.interrupted cause after
    rw [Interrupt.escaped_eq (evaluate_unsignaled outcome), (restored.atTop top).eq]

theorem interpret_more {fuel more : Nat} (enough : fuel ≤ more) {stmts : List Stmt} {machine : Machine}
    (ended : interpret fuel stmts machine ≠ .outOfFuel) : interpret more stmts machine = interpret fuel stmts machine := by
  have inside : (Task.executeAll stmts).run fuel machine ≠ .outOfFuel := by
    intro stops
    apply ended
    rw [interpret_fold, show executeAll fuel stmts machine = .outOfFuel from stops]
    rfl
  have same : executeAll more stmts machine = executeAll fuel stmts machine := Task.run_more enough inside
  rw [interpret_fold, interpret_fold, same]

end Machine

namespace Session
open Machine

variable {session after : Session} {fuel : Nat} {source : Bytes}

theorem run_clean (clean : (Program.ofSource source).errors = []) :
    session.run fuel source = (session.runStatements fuel (Program.ofSource source).statements).map Prod.snd := by
  unfold run
  dsimp only
  rw [if_pos (List.isEmpty_iff.mpr clean)]

theorem run_faulty (faulty : (Program.ofSource source).errors ≠ []) :
    session.run fuel source = some (session.reportDiagnostics (Program.ofSource source).errors) := by
  unfold run
  dsimp only
  rw [if_neg (fun clean => faulty (List.isEmpty_iff.mp clean))]

theorem evaluate_faulty (faulty : (Program.ofSource source).errors ≠ []) :
    session.evaluate fuel source = some (none, session.reportDiagnostics (Program.ofSource source).errors) := by
  unfold evaluate
  dsimp only
  rw [if_neg (fun clean => faulty (List.isEmpty_iff.mp clean))]

theorem evaluate_single (clean : (Program.ofSource source).errors = []) {expr : Expr}
    (single : (Program.ofSource source).statements = [.expression expr]) :
    session.evaluate fuel source =
      (session.perform (Machine.evaluate fuel expr)).map fun (result, after) => (result.toOption, after) := by
  unfold evaluate
  dsimp only
  rw [if_pos (List.isEmpty_iff.mpr clean), single]
  dsimp only
  congr 1
  funext ⟨result, after⟩
  cases result <;> rfl

theorem evaluate_several (clean : (Program.ofSource source).errors = [])
    (several : ∀ expr, (Program.ofSource source).statements ≠ [.expression expr]) :
    session.evaluate fuel source =
      (session.runStatements fuel (Program.ofSource source).statements).map fun (_, after) => (none, after) := by
  unfold evaluate
  dsimp only
  rw [if_pos (List.isEmpty_iff.mpr clean)]
  split
  next expr single => exact absurd single (several expr)
  next => rfl

theorem perform_ended {α : Type} {computation : Run α} {found : Except Interrupt α × Session}
    (ends : session.perform computation = some found) : computation session.machine ≠ .outOfFuel := by
  intro stops
  rcases perform_cases ends with ⟨_, _, ended, _⟩ | ⟨_, _, stopped, _⟩
  · cases stops.symm.trans ended
  · cases stops.symm.trans stopped

theorem perform_congr {α : Type} {first second : Run α} (same : first session.machine = second session.machine) :
    session.perform first = session.perform second := by
  unfold perform
  rw [same]

/-- A program of one expression is performed as the expression is, but for the value. -/
theorem runStatements_expression (top : AtTop session.machine) (fuel : Nat) (expr : Expr) :
    (session.runStatements (fuel + 2) [.expression expr]).map Prod.snd =
      (session.perform (Machine.evaluate fuel expr)).map Prod.snd := by
  unfold runStatements perform
  rw [interpret_expression top]
  cases Machine.evaluate fuel expr session.machine <;> rfl

/-- What can be run can be evaluated, and both leave the same. -/
private theorem evaluate_of_run (top : AtTop session.machine) (ends : session.run fuel source = some after) :
    ∃ value, session.evaluate fuel source = some (value, after) := by
  by_cases clean : (Program.ofSource source).errors = []
  · rw [run_clean clean] at ends
    by_cases single : ∃ expr, (Program.ofSource source).statements = [.expression expr]
    · obtain ⟨expr, single⟩ := single
      rw [single] at ends
      rw [evaluate_single clean single]
      match fuel with
      | 0 | 1 => cases ends
      | fuel + 2 =>
        rw [runStatements_expression top] at ends
        obtain ⟨⟨result, last⟩, performed, rfl⟩ := Option.map_eq_some_iff.mp ends
        have ended : (Task.evaluate expr).run fuel session.machine ≠ .outOfFuel := perform_ended performed
        have more : Machine.evaluate (fuel + 2) expr session.machine = Machine.evaluate fuel expr session.machine :=
          Task.run_more (Nat.le_add_right fuel 2) ended
        rw [perform_congr more, performed]
        exact ⟨result.toOption, rfl⟩
    · obtain ⟨⟨result, last⟩, performed, rfl⟩ := Option.map_eq_some_iff.mp ends
      rw [evaluate_several clean fun expr same => single ⟨expr, same⟩, performed]
      exact ⟨none, rfl⟩
  · rw [run_faulty clean] at ends
    cases ends
    exact ⟨none, evaluate_faulty clean⟩

/-- What can be evaluated can be run, and both leave the same. -/
private theorem run_of_evaluate (top : AtTop session.machine) {value : Option Value}
    (ends : session.evaluate fuel source = some (value, after)) : session.run (fuel + 2) source = some after := by
  rcases evaluate_cases ends with ⟨faulty, rfl, _⟩ | ⟨clean, ⟨expr, result, single, performed, _⟩ | ⟨result, ran, _⟩⟩
  · exact run_faulty faulty
  · rw [run_clean clean, single, runStatements_expression top, performed]
    rfl
  · have more := interpret_more (Nat.le_add_right fuel 2) (perform_ended ran)
    rw [run_clean clean, runStatements, perform_congr more]
    exact congrArg (Option.map Prod.snd) ran

/-- A value is yielded by a single expression only, and it is the value of that. -/
theorem evaluate_yields {value : Option Value} (ends : session.evaluate fuel source = some (value, after))
    (result : Value) : value = some result ↔ (Program.ofSource source).errors = [] ∧ ∃ expr machine,
      (Program.ofSource source).statements = [.expression expr] ∧
      Machine.evaluate fuel expr session.machine = .value result machine := by
  by_cases clean : (Program.ofSource source).errors = []
  · by_cases single : ∃ expr, (Program.ofSource source).statements = [.expression expr]
    · obtain ⟨expr, single⟩ := single
      rw [evaluate_single clean single] at ends
      obtain ⟨⟨ending, last⟩, performed, same⟩ := Option.map_eq_some_iff.mp ends
      cases same
      rcases perform_cases performed with ⟨_, _, yields, rfl, rfl⟩ | ⟨_, _, stops, rfl, rfl⟩
      · simp [clean, single, yields, Except.toOption]
      · simp [single, stops, Except.toOption]
    · rw [evaluate_several clean fun expr same => single ⟨expr, same⟩] at ends
      obtain ⟨_, _, same⟩ := Option.map_eq_some_iff.mp ends
      cases same
      constructor
      · intro impossible
        cases impossible
      · rintro ⟨_, expr, _, only, _⟩
        exact absurd ⟨expr, only⟩ single
  · rw [evaluate_faulty clean] at ends
    cases ends
    simp [clean]

/-- From the top level, evaluating a source and running it leave the same machine and the same reports;
a value is yielded exactly by a source that is one expression, and it is the value of that. -/
theorem evaluate_agrees_with_run (top : AtTop session.machine) (fuel : Nat) (source : Bytes) :
    (∀ after, session.run fuel source = some after → ∃ value, session.evaluate fuel source = some (value, after)) ∧
    ∀ value after, session.evaluate fuel source = some (value, after) →
      session.run (fuel + 2) source = some after ∧
      ∀ result, value = some result ↔ (Program.ofSource source).errors = [] ∧ ∃ expr machine,
        (Program.ofSource source).statements = [.expression expr] ∧
        Machine.evaluate fuel expr session.machine = .value result machine := by
  refine ⟨fun after => evaluate_of_run top, fun value after ends => ⟨run_of_evaluate top ends, ?_⟩⟩
  exact evaluate_yields ends

/-- `f("a");` fails inside an expression, where nothing is put back by force. -/
theorem failedCall_agrees : AtTop (Session.start {}).machine ∧
    ∃ after, (Session.start {}).run 20 (.ofString "f(\"a\");") = some after ∧ after.reporter.hadRuntimeError = true ∧
      ∃ value, (Session.start {}).evaluate 20 (.ofString "f(\"a\");") = some (value, after) := by
  have top : AtTop (Session.start {}).machine := ⟨rfl, rfl⟩
  have fails : ((Session.start {}).run 20 (.ofString "f(\"a\");")).map (·.reporter.hadRuntimeError) = some true := by
    decide +kernel
  obtain ⟨after, ran, reported⟩ := Option.map_eq_some_iff.mp fails
  exact ⟨top, after, ran, reported, (evaluate_agrees_with_run top 20 _).1 after ran⟩

end Session
end Treewalk
