import Treewalk.Proofs.RunChanges

/-! What each operation of a session does when it ends. The machine of a run is taken over, and what goes
wrong is reported; the other operations come down to that. -/

namespace Treewalk.Session

variable [Natives] {session after : Session} {fuel : Nat} {source : Bytes}

omit [Natives] in
/-- A computation is interrupted or not, and an interrupt is reported. -/
theorem perform_cases {α : Type} {computation : Run α} {result : Except Interrupt α}
    (ends : session.perform computation = some (result, after)) :
    (∃ value machine, computation session.machine = .value value machine ∧ result = .ok value ∧
      after = session.settle machine) ∨
    ∃ cause machine, computation session.machine = .interrupted cause machine ∧ result = .error cause ∧
      after = (session.settle machine).reportInterrupt cause := by
  unfold perform at ends
  split at ends
  next value machine ended =>
    cases ends
    exact .inl ⟨value, machine, ended, rfl, rfl⟩
  next cause machine stopped =>
    cases ends
    exact .inr ⟨cause, machine, stopped, rfl, rfl⟩
  next => cases ends

omit [Natives] in
/-- However it ended, the machine is taken over without its trace. -/
theorem perform_machine {α : Type} {computation : Run α} {result : Except Interrupt α}
    (ends : session.perform computation = some (result, after)) :
    ∃ machine, (computation session.machine).after? = some machine ∧ after.machine = { machine with trace := #[] } := by
  rcases perform_cases ends with ⟨_, machine, ended, _, rfl⟩ | ⟨_, machine, stopped, _, rfl⟩
  · exact ⟨machine, congrArg Outcome.after? ended, rfl⟩
  · exact ⟨machine, congrArg Outcome.after? stopped, rfl⟩

theorem run_cases (ends : session.run fuel source = some after) :
    ((Program.ofSource source).errors ≠ [] ∧ after = session.reportDiagnostics (Program.ofSource source).errors) ∨
    (Program.ofSource source).errors = [] ∧
      ∃ result, session.runStatements fuel (Program.ofSource source).statements = some (result, after) := by
  unfold run at ends
  dsimp only at ends
  split at ends
  next clean =>
    obtain ⟨⟨result, performed⟩, ran, rfl⟩ := Option.map_eq_some_iff.mp ends
    exact .inr ⟨List.isEmpty_iff.mp clean, result, ran⟩
  next faulty =>
    cases ends
    exact .inl ⟨fun clean => faulty (List.isEmpty_iff.mpr clean), rfl⟩

/-- A text with errors in it is only reported; a single expression is evaluated, and anything else is
run for its effects. -/
theorem evaluate_cases {value : Option Value} (ends : session.evaluate fuel source = some (value, after)) :
    ((Program.ofSource source).errors ≠ [] ∧ after = session.reportDiagnostics (Program.ofSource source).errors ∧
      value = none) ∨
    (Program.ofSource source).errors = [] ∧
      ((∃ expr result, (Program.ofSource source).statements = [.expression expr] ∧
          session.perform (Machine.evaluate fuel expr) = some (result, after) ∧ value = result.toOption) ∨
        ∃ result, session.runStatements fuel (Program.ofSource source).statements = some (result, after) ∧
          value = none) := by
  unfold evaluate at ends
  dsimp only at ends
  split at ends
  next clean =>
    refine .inr ⟨List.isEmpty_iff.mp clean, ?_⟩
    split at ends
    next expr only =>
      obtain ⟨⟨result, performed⟩, ran, same⟩ := Option.map_eq_some_iff.mp ends
      refine .inl ⟨expr, result, only, ?_⟩
      cases result <;> cases same <;> exact ⟨ran, rfl⟩
    next =>
      obtain ⟨⟨result, performed⟩, ran, same⟩ := Option.map_eq_some_iff.mp ends
      cases same
      exact .inr ⟨result, ran, rfl⟩
  next faulty =>
    cases ends
    exact .inl ⟨fun clean => faulty (List.isEmpty_iff.mpr clean), rfl, rfl⟩

omit [Natives] in
/-- Showing a value touches nothing but the output. -/
theorem echo_output (session : Session) (value : Option Value) :
    ∃ output, session.echo value = { session with machine := { session.machine with output } } := by
  unfold echo
  split <;> exact ⟨_, rfl⟩

/-- A blank text is forgotten, one that has to go on is kept, and any other is evaluated and its value shown. -/
theorem feed_cases {line : Bytes} {final more : Bool} (ends : session.feed fuel line final = some (more, after)) :
    (isBlankText (session.buffer ++ line ++ Bytes.newline) = true ∧ after = { session with buffer := [] }) ∨
    isBlankText (session.buffer ++ line ++ Bytes.newline) = false ∧
      (completed (session.buffer ++ line ++ Bytes.newline) final = none ∧
          after = { session with buffer := session.buffer ++ line ++ Bytes.newline } ∨
        ∃ text value evaluated, completed (session.buffer ++ line ++ Bytes.newline) final = some text ∧
          { session with buffer := [], reporter := session.reporter.reset }.evaluate fuel text = some (value, evaluated) ∧
          after = evaluated.echo value) := by
  unfold feed at ends
  dsimp only at ends
  split at ends
  next blank =>
    cases ends
    exact .inl ⟨blank, rfl⟩
  next full =>
    refine .inr ⟨Bool.eq_false_iff.mpr full, ?_⟩
    split at ends
    next waits =>
      cases ends
      exact .inl ⟨waits, rfl⟩
    next text complete =>
      obtain ⟨⟨value, evaluated⟩, evaluates, shows⟩ := Option.map_eq_some_iff.mp ends
      cases shows
      exact .inr ⟨text, value, evaluated, complete, evaluates, rfl⟩

end Treewalk.Session
