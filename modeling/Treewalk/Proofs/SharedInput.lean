import Treewalk.Proofs.ChunkedFeeding
import Treewalk.Proofs.RunFailures
import Treewalk.Proofs.SourceEvaluation
import Treewalk.Proofs.TextLines

/-! A session and the programs that it runs read from one input. The history of a session says which lines
were fed in and what calls of the built-in function `input` gave, in the order in which that happened: these
are the lines of the input, each once. -/

namespace Treewalk

inductive InputEvent where
  /-- A line was fed in. -/
  | fed (line : Bytes)
  /-- A call of `input` gave a value, when so much was left to be read. -/
  | answered (value : Value) (left : Bytes)

def InputEvent.line? : InputEvent → Option Bytes
  | fed line => some line
  | answered (.string line) _ => some line
  | answered _ _ => none

theorem Outcome.ended_inj {α : Type} {one two : Except Interrupt α} {first second : Machine}
    (same : ended one first = ended two second) : one = two ∧ first = second := by
  cases one <;> cases two <;> cases same <;> exact ⟨rfl, rfl⟩

/-- What happened took the lines of the input in order, and nothing was given only where nothing was left. -/
structure Input.Serves (before : Input) (events : List InputEvent) (after : Input) : Prop where
  lines : before.lines = events.filterMap InputEvent.line? ++ after.lines
  whole : after.ending = .always none
  null : ∀ left, .answered .null left ∈ events → left = []

namespace Input.Serves

variable {before middle after : Input} {events later : List InputEvent}

theorem nothing {input : Input} (whole : input.ending = .always none) : input.Serves [] input :=
  ⟨rfl, whole, nofun⟩

theorem append (first : before.Serves events middle) (second : middle.Serves later after) :
    before.Serves (events ++ later) after where
  lines := by rw [first.lines, second.lines, List.filterMap_append, List.append_assoc]
  whole := second.whole
  null left member := (List.mem_append.mp member).elim (first.null left) (second.null left)

/-- A line that is read may be fed in. -/
theorem read {input : Input} (whole : input.ending = .always none) :
    input.Serves (input.readLine.1.line?.toList.map .fed) input.readLine.2 := by
  obtain ⟨lines, still, _⟩ := readLine_lines whole
  refine ⟨?_, still, ?_⟩
  · cases found : input.readLine.1.line? <;> rwa [found] at lines
  · cases input.readLine.1.line? <;> simp

end Input.Serves

namespace Machine
open Run

section Events

variable {α : Type}

/-- What a task gets from the input by itself: only calls of `input` do. -/
def Task.given (machine : Machine) : (task : Task) → Outcome task.Result → List InputEvent
  | .invoke (.native builtin) _, .value result _ =>
    if builtin.primitive = .input then [.answered result machine.input.rest] else []
  | _, _ => []

def Plan.events (perform : (task : Task) → Run task.Result) (inside : Task → Machine → List InputEvent) :
    Plan α → List InputEvent
  | done _ => []
  | ask task machine next =>
    inside task machine ++
      match perform task machine with
      | .value result after => (next (.ok result) after).events perform inside
      | .interrupted cause after => (next (.error cause) after).events perform inside
      | .outOfFuel => []

/-- What comes from the input while a task runs, in order. -/
def Task.events : (fuel : Nat) → Task → Machine → List InputEvent
  | 0, _, _ => []
  | fuel + 1, task, machine =>
    (task.plan machine).events (Task.run fuel) (Task.events fuel) ++ task.given machine (task.run (fuel + 1) machine)

theorem Plan.events_ended {perform : (task : Task) → Run task.Result} {inside : Task → Machine → List InputEvent} {task : Task}
    {machine after : Machine} (next : Except Interrupt task.Result → Machine → Plan α) {ending : Except Interrupt task.Result}
    (ends : perform task machine = .ended ending after) :
    (ask task machine next).events perform inside = inside task machine ++ (next ending after).events perform inside := by
  rw [events, ends]
  cases ending <;> rfl

/-- A plan leaves the input alone, whatever the tasks do that it hands on. -/
def Plan.KeepsInput : Machine → Plan α → Prop
  | before, done outcome => ∀ after, outcome.after? = some after → after.input = before.input
  | before, ask _ machine next => machine.input = before.input ∧ ∀ ending after, (next ending after).KeepsInput after

end Events

namespace Plan

variable {α : Type} {before machine : Machine}

theorem keepsInput_value (same : machine.input = before.input) (result : α) :
    (done (.value result machine)).KeepsInput before := by
  rintro _ ⟨⟩
  exact same

theorem keepsInput_interrupted (same : machine.input = before.input) (cause : Interrupt) :
    (done (.interrupted cause machine) : Plan α).KeepsInput before := by
  rintro _ ⟨⟩
  exact same

theorem keepsInput_ended (same : machine.input = before.input) (ending : Except Interrupt α) :
    (done (.ended ending machine)).KeepsInput before := by
  cases ending with
  | ok result => exact keepsInput_value same result
  | error cause => exact keepsInput_interrupted same cause

theorem keepsInput_first {task : Task} {next : task.Result → Machine → Plan α} (same : machine.input = before.input)
    (goesOn : ∀ result after, (next result after).KeepsInput after) : (first task machine next).KeepsInput before := by
  refine ⟨same, fun ending after => ?_⟩
  cases ending with
  | ok result => exact goesOn result after
  | error cause => exact keepsInput_interrupted rfl cause

theorem keepsInput_last {task : Task} (same : machine.input = before.input) : (last task machine).KeepsInput before :=
  ⟨same, fun ending _ => keepsInput_ended rfl ending⟩

theorem keepsInput_write {text : Bytes} : (done (write text machine)).KeepsInput machine := by
  intro after ends
  rcases write_after ends with rfl | rfl <;> rfl

theorem keepsInput_bind {β : Type} {operation : Run β} {next : β → Run α} (begins : (done (operation machine)).KeepsInput machine)
    (goesOn : ∀ result after, (done (next result after)).KeepsInput after) :
    (done ((operation >>= next) machine)).KeepsInput machine := by
  intro after ends
  change (andThen operation next machine).after? = some after at ends
  unfold andThen at ends
  cases outcome : operation machine with
  | value result middle =>
    rw [outcome] at ends
    exact (goesOn result middle after ends).trans (begins middle (congrArg Outcome.after? outcome))
  | interrupted cause middle =>
    rw [outcome] at ends
    cases ends
    exact begins after (congrArg Outcome.after? outcome)
  | outOfFuel =>
    rw [outcome] at ends
    cases ends

theorem keepsInput_ofExcept (result : Except RuntimeError α) : (done (ofExcept result machine)).KeepsInput machine := by
  cases result with
  | ok result => exact keepsInput_value rfl result
  | error error => exact keepsInput_interrupted rfl _

end Plan

open Plan

section

variable (machine : Machine)

private theorem recorded_input (event : TraceEvent) : (machine.recorded event).input = machine.input := by
  unfold recorded
  split <;> rfl

private theorem callPlan_keepsInput (called : Value) (values : List Value) (paren : Token) :
    (callPlan called values paren machine).KeepsInput machine := by
  unfold callPlan
  cases called.callable? with
  | none => exact keepsInput_interrupted rfl _
  | some callable =>
    dsimp only
    split
    · split
      · refine ⟨recorded_input _ _, fun ending after => ?_⟩
        cases ending with
        | ok result =>
          rintro _ ⟨⟩
          exact recorded_input after _
        | error cause => exact keepsInput_interrupted rfl _
      · exact keepsInput_interrupted rfl _
    · exact keepsInput_interrupted rfl _

private theorem evaluatePlan_keepsInput (expr : Expr) : (evaluatePlan machine expr).KeepsInput machine := by
  cases expr with
  | literal value pos => exact keepsInput_value rfl _
  | name token =>
    intro after ends
    dsimp only [lookup] at ends
    split at ends <;> cases ends <;> rfl
  | assign target value =>
    refine keepsInput_first rfl fun result after => keepsInput_bind ?_ fun _ last => keepsInput_value rfl result
    intro last ends
    obtain ⟨_, rfl⟩ := assign_after ends
    rfl
  | ternary condition one two =>
    refine keepsInput_first rfl fun decision after => ?_
    split <;> exact keepsInput_last rfl
  | logical left operator right =>
    refine keepsInput_first rfl fun result after => ?_
    split
    · exact keepsInput_value rfl result
    · exact keepsInput_last rfl
  | binary left operator right =>
    exact keepsInput_first rfl fun _ _ => keepsInput_first rfl fun _ _ => keepsInput_ofExcept _
  | unary operator operand => exact keepsInput_first rfl fun _ _ => keepsInput_ofExcept _
  | group inner => exact keepsInput_last rfl
  | call callee paren arguments =>
    exact keepsInput_first rfl fun called _ => keepsInput_first rfl fun values there =>
      callPlan_keepsInput there called values paren
  | hole => exact keepsInput_interrupted rfl _

private theorem evaluateAllPlan_keepsInput (exprs : List Expr) : (evaluateAllPlan machine exprs).KeepsInput machine := by
  cases exprs with
  | nil => exact keepsInput_value rfl []
  | cons expr rest => exact keepsInput_first rfl fun _ _ => keepsInput_first rfl fun _ _ => keepsInput_value rfl _

private theorem native_keepsInput {builtin : Native} (other : builtin.primitive ≠ .input) (arguments : List Value) :
    (done (Machine.invoke 1 (.native builtin) arguments machine)).KeepsInput machine := by
  obtain ⟨id, name, arity, primitive⟩ := builtin
  rw [invoke.eq_def]
  dsimp only
  split
  · exact keepsInput_value rfl _
  · exact keepsInput_bind keepsInput_write fun _ _ => keepsInput_value rfl _
  · exact absurd rfl other
  · exact keepsInput_interrupted rfl _
  · exact keepsInput_interrupted rfl _
  next value argument =>
    cases value.callable? with
    | none => exact keepsInput_value rfl _
    | some callable =>
      intro after ends
      dsimp only at ends
      split at ends
      · have stops : Machine.invoke 0 callable [argument] machine = .outOfFuel :=
          (Task.invoke callable [argument]).run_zero machine
        rw [stops] at ends
        cases ends
      · cases ends
        rfl
  · exact keepsInput_value rfl _
  · exact keepsInput_interrupted rfl _
  · exact keepsInput_interrupted rfl _

private theorem invokePlan_keepsInput {callable : Callable}
    (other : ∀ builtin, callable = .native builtin → builtin.primitive ≠ .input) (arguments : List Value) :
    (invokePlan machine callable arguments).KeepsInput machine := by
  cases callable with
  | function closure =>
    rw [invokePlan]
    split
    · refine ⟨rfl, fun ending after => ?_⟩
      cases ending with
      | ok result => exact keepsInput_value rfl _
      | error cause => cases cause <;> first | exact keepsInput_value rfl _ | exact keepsInput_interrupted rfl _
    · exact keepsInput_interrupted rfl _
  | native builtin =>
    unfold invokePlan
    dsimp only
    split
    next value argument applies =>
      split
      · split
        · exact keepsInput_last rfl
        · exact keepsInput_value rfl _
      · exact keepsInput_value rfl _
    next => exact native_keepsInput machine (other builtin rfl) _

private theorem turnEnded_keepsInput {next : Machine → Plan Unit} (goesOn : ∀ after, (next after).KeepsInput after)
    (ending : Except Interrupt Unit) : (turnEnded next ending machine).KeepsInput machine := by
  cases ending with
  | ok result => exact goesOn machine
  | error cause =>
    cases cause with
    | continueLoop keyword => exact goesOn machine
    | breakLoop keyword => exact keepsInput_value rfl ()
    | returnValue keyword value | failure error | host fault => exact keepsInput_interrupted rfl _

private theorem repeatWhilePlan_keepsInput (condition : Expr) (body : Stmt) (post : Option Stmt) :
    (repeatWhilePlan machine condition body post).KeepsInput machine := by
  refine keepsInput_first rfl fun decision after => ?_
  split
  · refine ⟨rfl, fun ending turned => turnEnded_keepsInput turned (fun after => ?_) ending⟩
    cases post with
    | none => exact keepsInput_last rfl
    | some stmt =>
      exact ⟨rfl, fun ending last => turnEnded_keepsInput last (fun _ => keepsInput_last rfl) ending⟩
  · exact keepsInput_value rfl ()

private theorem executePlan_keepsInput (stmt : Stmt) : (executePlan machine stmt).KeepsInput machine := by
  cases stmt with
  | expression value => exact keepsInput_first rfl fun _ _ => keepsInput_value rfl ()
  | print value => exact keepsInput_first rfl fun _ _ => keepsInput_write
  | declare name initial =>
    cases initial with
    | none => exact keepsInput_value rfl ()
    | some initial => exact keepsInput_first rfl fun _ _ => keepsInput_value rfl ()
  | block body pos => exact ⟨rfl, fun ending _ => keepsInput_ended rfl ending⟩
  | branch condition consequence alternative pos =>
    refine keepsInput_first rfl fun decision after => ?_
    split
    · exact keepsInput_last rfl
    · cases alternative with
      | none => exact keepsInput_value rfl ()
      | some alternative => exact keepsInput_last rfl
  | loop condition body post pos => exact keepsInput_last rfl
  | function name parameters body => exact keepsInput_value rfl ()
  | returnValue keyword result =>
    cases result with
    | none => exact keepsInput_interrupted rfl _
    | some result => exact keepsInput_first rfl fun _ _ => keepsInput_interrupted rfl _
  | breakLoop keyword | continueLoop keyword | hole => exact keepsInput_interrupted rfl _

private theorem executeAllPlan_keepsInput (stmts : List Stmt) : (executeAllPlan machine stmts).KeepsInput machine := by
  cases stmts with
  | nil => exact keepsInput_value rfl ()
  | cons stmt rest => exact keepsInput_first rfl fun _ _ => keepsInput_last rfl

def Task.IsInput : Task → Prop
  | .invoke (.native builtin) _ => builtin.primitive = .input
  | _ => False

private theorem Task.plan_keepsInput (task : Task) (other : ¬ task.IsInput) : (task.plan machine).KeepsInput machine := by
  cases task with
  | evaluate expr => exact evaluatePlan_keepsInput machine expr
  | evaluateAll exprs => exact evaluateAllPlan_keepsInput machine exprs
  | invoke callable arguments =>
    refine invokePlan_keepsInput machine ?_ arguments
    rintro builtin rfl
    exact other
  | execute stmt => exact executePlan_keepsInput machine stmt
  | executeAll stmts => exact executeAllPlan_keepsInput machine stmts
  | repeatWhile condition body post => exact repeatWhilePlan_keepsInput machine condition body post

end

section

variable {α : Type} {fuel : Nat} {machine after : Machine}

theorem Task.given_other {task : Task} (other : ¬ task.IsInput) (outcome : Outcome task.Result) :
    task.given machine outcome = [] := by
  unfold given
  split
  next builtin _ result _ => exact if_neg other
  next => rfl

/-- Reading a line gives the next one, or null when nothing is left. -/
theorem readLine_serves (whole : machine.input.ending = .always none) : ∃ value after,
    readLine machine = .value value after ∧ machine.input.Serves [.answered value machine.input.rest] after.input := by
  obtain ⟨lines, still, ends⟩ := Input.readLine_lines whole
  unfold readLine
  split
  next input same =>
    rcases Input.readLine_cases whole with ⟨_, _, _, _, reads⟩ | ⟨_, reads⟩ <;> cases reads.symm.trans same
  next read input _ same =>
    rw [same] at lines still ends
    cases found : read.line? with
    | some line =>
      rw [found] at lines
      exact ⟨_, _, rfl, lines, still, nofun⟩
    | none =>
      rw [found] at lines
      refine ⟨_, _, rfl, lines, still, fun left member => ?_⟩
      obtain ⟨_, rfl⟩ := InputEvent.answered.inj (List.mem_singleton.mp member)
      exact ends found

/-- A call of `input` writes its prompt and takes a line. -/
private theorem input_serves {builtin : Native} (asks : builtin.primitive = .input) (arguments : List Value)
    (whole : machine.input.ending = .always none) : ∃ ending after,
      invoke (fuel + 1) (.native builtin) arguments machine = .ended ending after ∧
      machine.input.Serves (Task.given machine (.invoke (.native builtin) arguments) (.ended ending after)) after.input := by
  obtain ⟨id, name, arity, _⟩ := builtin
  cases asks
  rcases arguments with _ | ⟨prompt, _ | ⟨second, others⟩⟩
  · exact ⟨.error (.host .missingArgument), machine, rfl, .nothing whole⟩
  · change ∃ ending after, andThen (write prompt.text) (fun _ => readLine) machine = .ended ending after ∧ _
    unfold andThen
    cases written : write prompt.text machine with
    | value _ middle =>
      have same : middle.input = machine.input := keepsInput_write middle (congrArg Outcome.after? written)
      obtain ⟨value, after, reads, serves⟩ := readLine_serves (same ▸ whole)
      exact ⟨.ok value, after, reads, by rwa [same] at serves⟩
    | interrupted cause middle =>
      have same : middle.input = machine.input := keepsInput_write middle (congrArg Outcome.after? written)
      exact ⟨.error cause, middle, rfl, by rw [same]; exact .nothing whole⟩
    | outOfFuel =>
      unfold write at written
      split at written <;> cases written
  · exact ⟨.error (.host .missingArgument), machine, rfl, .nothing whole⟩

/-- What a plan hands on takes lines in order, if each task does. -/
theorem Plan.serves {plan : Plan α} {before : Machine} (keeps : plan.KeepsInput before) (whole : before.input.ending = .always none)
    (inside : ∀ (task : Task) (machine : Machine) (ending : Except Interrupt task.Result) (after : Machine),
      machine.input.ending = .always none → task.run fuel machine = .ended ending after →
      machine.input.Serves (task.events fuel machine) after.input)
    {ending : Except Interrupt α} (ends : plan.run (Task.run fuel) = .ended ending after) :
    before.input.Serves (plan.events (Task.run fuel) (Task.events fuel)) after.input := by
  induction plan generalizing before with
  | done outcome =>
    have same := keeps after (by rw [show outcome = _ from ends, Outcome.after?_ended])
    rw [events, same]
    exact .nothing whole
  | ask task machine next ih =>
    obtain ⟨same, goesOn⟩ := keeps
    rcases (task.run fuel machine).outOfFuel_or_ended with stops | ⟨ended, middle, found⟩
    · rw [Plan.run_outOfFuel next stops] at ends
      exact absurd ends.symm (Outcome.ended_ne_outOfFuel ending after)
    · rw [Plan.run_ended next found] at ends
      rw [Plan.events_ended next found, ← same]
      have first := inside task machine ended middle (same ▸ whole) found
      exact first.append (ih ended middle (goesOn ended middle) first.whole ends)

/-- While a task runs, lines are taken from the input in order. -/
theorem Task.serves {task : Task} {ending : Except Interrupt task.Result} (whole : machine.input.ending = .always none)
    (ends : task.run fuel machine = .ended ending after) : machine.input.Serves (task.events fuel machine) after.input := by
  induction fuel generalizing task machine ending after with
  | zero =>
    rw [Task.run_zero] at ends
    exact absurd ends.symm (Outcome.ended_ne_outOfFuel ending after)
  | succ fuel ih =>
    rw [Task.events, ends]
    by_cases asks : task.IsInput
    · cases task with
      | invoke callable arguments =>
        cases callable with
        | function closure => exact asks.elim
        | native builtin =>
          obtain ⟨found, last, ended, serves⟩ := input_serves asks arguments whole
          obtain ⟨rfl, rfl⟩ := Outcome.ended_inj (ended.symm.trans ends)
          have alone : (invokePlan machine (.native builtin) arguments).events (Task.run fuel) (Task.events fuel) = [] := by
            obtain ⟨id, name, arity, _⟩ := builtin
            cases asks
            rfl
          rwa [Task.plan, alone, List.nil_append]
      | _ => exact asks.elim
    · rw [Task.run_succ] at ends
      rw [Task.given_other asks, List.append_nil]
      exact Plan.serves (task.plan_keepsInput machine asks) whole (fun _ _ _ _ => ih) ends

end

end Machine

namespace Session
open Machine

variable {fuel : Nat} {session after : Session}

end Session
end Treewalk
