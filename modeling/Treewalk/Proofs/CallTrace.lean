import Treewalk.Proofs.SourceEvaluation

/-! The trace of calls is well bracketed. A call that starts is told with the number of calls under way, and what
returns is the innermost of them. Nothing catches an error, so nothing is told behind one: the calls that the trace
leaves open are those that were under way when the error arose. -/

namespace Treewalk

namespace TraceEvent

/-- The calls that are open behind an event, innermost first, when these were open before it. A call has to be told
with the number of calls that are open with it, which is within the limit, and what returns has to be the innermost
open call. -/
def openBehind (limit : Nat) (calls : List Bytes) : TraceEvent → Option (List Bytes)
  | called callee _ _ depth => if depth = calls.length + 1 ∧ depth ≤ limit then some (callee :: calls) else none
  | returned callee _ =>
    match calls with
    | innermost :: others => if innermost = callee then some others else none
    | [] => none

/-- The calls that the events leave open, if each event is in place. -/
def openCalls? (limit : Nat) (events : List TraceEvent) : Option (List Bytes) :=
  events.foldlM (openBehind limit) []

/-- An event that is in place is told behind the others. -/
theorem openCalls?_push {limit : Nat} {earlier : List TraceEvent} {trace : Array TraceEvent} {calls next : List Bytes}
    {event : TraceEvent} (leaves : ∃ events, trace.toList = earlier ++ events ∧ openCalls? limit events = some calls)
    (inPlace : openBehind limit calls event = some next) :
    ∃ events, (trace.push event).toList = earlier ++ events ∧ openCalls? limit events = some next := by
  obtain ⟨events, told, before⟩ := leaves
  refine ⟨events ++ [event], ?_, ?_⟩
  · rw [Array.toList_push, told, List.append_assoc]
  · unfold openCalls? at before ⊢
    rw [List.foldlM_append, before]
    change openBehind limit calls event >>= some = _
    rw [inPlace]
    rfl

end TraceEvent

namespace Interrupt

/-- The second is the first, or what it looks like at the call of a built-in function that failed. -/
def Surfaces (raised cause : Interrupt) : Prop :=
  cause = raised ∨ ∃ paren, cause = raised.atCall paren

theorem Surfaces.refl (cause : Interrupt) : cause.Surfaces cause :=
  .inl rfl

theorem Surfaces.trans {raised middle cause : Interrupt} (first : raised.Surfaces middle)
    (second : middle.Surfaces cause) : raised.Surfaces cause := by
  rcases first with rfl | ⟨paren, rfl⟩
  · exact second
  · rcases second with rfl | ⟨other, rfl⟩
    · exact .inr ⟨paren, rfl⟩
    · rcases Machine.atCall_cases raised paren with ⟨_, passed⟩ | ⟨fault, _, shown⟩
      · rw [passed]
        exact .inr ⟨other, rfl⟩
      · rw [shown]
        exact .inr ⟨paren, shown.symm⟩

theorem atCall_unsignaled {cause : Interrupt} (error : ¬cause.IsSignal) (paren : Token) : ¬(cause.atCall paren).IsSignal := by
  rcases Machine.atCall_cases cause paren with ⟨_, passed⟩ | ⟨fault, _, shown⟩
  · rw [passed]
    exact error
  · rw [shown]
    exact id

end Interrupt

namespace Machine
open Run

/-- Behind what was told earlier, the trace leaves exactly these calls open, innermost first, and they are the calls
under way. -/
structure Telling (earlier : List TraceEvent) (limit : Nat) (calls : List Callable) (machine : Machine) : Prop where
  tracing : machine.tracing = true
  maxDepth : machine.maxDepth = limit
  depth : machine.depth = calls.length
  trace : ∃ events, machine.trace.toList = earlier ++ events ∧
    TraceEvent.openCalls? limit events = some (calls.map Callable.text)

def Task.opens : Task → Task → List Callable
  | evaluate (.call _ _ _), invoke callable _ => [callable]
  | _, _ => []

/-- The run of a task comes to the point where a task starts on a machine, while these calls, innermost first, are
under way that were started since. -/
inductive ReachesIn : List Callable → Task → Machine → Task → Machine → Prop where
  | start (task : Task) (machine : Machine) : ReachesIn [] task machine task machine
  | ask {calls : List Callable} {task asked reached : Task} {machine point there : Machine}
      (asks : (task.plan machine).Asks asked point) (goesOn : ReachesIn calls asked point reached there) :
      ReachesIn (calls ++ task.opens asked) task machine reached there

theorem reaches_iff_in {task reached : Task} {machine there : Machine} :
    Reaches task machine reached there ↔ ∃ calls, ReachesIn calls task machine reached there := by
  constructor
  · intro reaches
    induction reaches with
    | start task machine => exact ⟨[], .start task machine⟩
    | ask asks _ ih =>
      obtain ⟨calls, goesOn⟩ := ih
      exact ⟨_, .ask asks goesOn⟩
  · rintro ⟨calls, reaches⟩
    induction reaches with
    | start task machine => exact .start task machine
    | ask asks _ ih => exact .ask asks ih

/-- A task ended in this way without an error: with a result or a signal. -/
def Calm {α : Type} (ending : Except Interrupt α) : Prop :=
  ∀ cause, ending = .error cause → cause.IsSignal

theorem calm_ok {α : Type} (result : α) : Calm (.ok result) := by
  rintro _ ⟨⟩

/-- A plan comes to an error of its own, on this machine; the tasks that it handed on before ended without one. -/
inductive Plan.Raises {α : Type} : Plan α → Interrupt → Machine → Prop where
  | here {cause : Interrupt} (error : ¬cause.IsSignal) (machine : Machine) :
      Raises (Plan.done (Outcome.interrupted cause machine)) cause machine
  | later {task : Task} {machine after stopped : Machine} {next : Except Interrupt task.Result → Machine → Plan α}
      {ending : Except Interrupt task.Result} {cause : Interrupt} (ends : task.Ends machine ending after)
      (calm : Calm ending) (rest : Raises (next ending after) cause stopped) :
      Raises (Plan.ask task machine next) cause stopped

/-- An error arises in the run of a task, on this machine and while these calls are under way. -/
def Task.RaisesIn (calls : List Callable) (task : Task) (machine : Machine) (cause : Interrupt) (stopped : Machine) : Prop :=
  ∃ reached there, ReachesIn calls task machine reached there ∧ (reached.plan there).Raises cause stopped

section

variable {earlier : List TraceEvent} {limit : Nat} {calls : List Callable} {machine : Machine}

theorem Telling.entered (told : machine.Telling earlier limit calls) (room : machine.depth < machine.maxDepth)
    (callee : Callable) (arguments : List Value) (paren : Token) :
    (machine.entered callee arguments paren).Telling earlier limit (callee :: calls) := by
  have within : machine.depth + 1 ≤ limit := told.maxDepth ▸ room
  have counted : machine.depth + 1 = (calls.map Callable.text).length + 1 := by
    rw [List.length_map, told.depth]
  unfold Machine.entered recorded
  rw [if_pos told.tracing]
  exact ⟨told.tracing, told.maxDepth, congrArg (· + 1) told.depth,
    TraceEvent.openCalls?_push told.trace (if_pos ⟨counted, within⟩)⟩

theorem Telling.returned {callee : Callable} (told : machine.Telling earlier limit (callee :: calls)) (result : Value) :
    { machine.recorded (.returned callee.text result.text) with
      depth := (machine.recorded (.returned callee.text result.text)).depth - 1 }.Telling earlier limit calls := by
  unfold recorded
  rw [if_pos told.tracing]
  exact ⟨told.tracing, told.maxDepth, congrArg (· - 1) told.depth,
    TraceEvent.openCalls?_push told.trace (if_pos rfl)⟩

end

namespace Plan

variable {α : Type}

/-- A plan tells of the calls that it starts, and of no others; when a task that it hands on ends with an error, it
ends at once and tells nothing more. -/
def Tells (earlier : List TraceEvent) (limit : Nat) (opens : Task → List Callable) (calls : List Callable) : Plan α → Prop
  | done outcome => ∀ after, outcome.after? = some after → after.Telling earlier limit calls
  | ask task machine next =>
    machine.Telling earlier limit (opens task ++ calls) ∧
    (∀ cause after, ¬cause.IsSignal → ∃ raised stopped, next (.error cause) after = .done (.interrupted raised stopped) ∧
      cause.Surfaces raised ∧ ¬raised.IsSignal ∧ stopped.trace = after.trace) ∧
    ∀ ending after, task.Ends machine ending after → Calm ending → after.Telling earlier limit (opens task ++ calls) →
      (next ending after).Tells earlier limit opens calls

variable {earlier : List TraceEvent} {limit : Nat} {opens : Task → List Callable} {calls : List Callable} {machine : Machine}
  (told : machine.Telling earlier limit calls)
include told

theorem tells_value (result : α) : (done (.value result machine)).Tells earlier limit opens calls := by
  rintro _ ⟨⟩
  exact told

theorem tells_interrupted (cause : Interrupt) :
    (done (.interrupted cause machine) : Plan α).Tells earlier limit opens calls := by
  rintro _ ⟨⟩
  exact told

theorem tells_ended (ending : Except Interrupt α) : (done (.ended ending machine)).Tells earlier limit opens calls := by
  cases ending with
  | ok result => exact tells_value told result
  | error cause => exact tells_interrupted told cause

theorem tells_ofExcept (result : Except RuntimeError α) :
    (done (ofExcept result machine)).Tells earlier limit opens calls := by
  cases result with
  | ok result => exact tells_value told result
  | error error => exact tells_interrupted told _

section

variable {task : Task} (silent : opens task = [])
include silent

/-- A task that is no call is handed on in the middle of the same calls. -/
theorem tells_ask {next : Except Interrupt task.Result → Machine → Plan α}
    (fails : ∀ cause after, ¬cause.IsSignal → ∃ stopped,
      next (.error cause) after = .done (.interrupted cause stopped) ∧ stopped.trace = after.trace)
    (goesOn : ∀ ending after, after.Telling earlier limit calls → (next ending after).Tells earlier limit opens calls) :
    (ask task machine next).Tells earlier limit opens calls := by
  unfold Tells
  rw [silent]
  refine ⟨told, fun cause after error => ?_, fun ending after _ _ => goesOn ending after⟩
  obtain ⟨stopped, passes, same⟩ := fails cause after error
  exact ⟨cause, stopped, passes, .refl cause, error, same⟩

theorem tells_first {next : task.Result → Machine → Plan α}
    (goesOn : ∀ result after, after.Telling earlier limit calls → (next result after).Tells earlier limit opens calls) :
    (first task machine next).Tells earlier limit opens calls := by
  refine tells_ask told silent (fun cause after _ => ⟨after, rfl, rfl⟩) fun ending after told => ?_
  cases ending with
  | ok result => exact goesOn result after told
  | error cause => exact tells_interrupted told cause

theorem tells_last : (last task machine).Tells earlier limit opens calls :=
  tells_ask told silent (fun _ after _ => ⟨after, rfl, rfl⟩) fun ending _ told => tells_ended told ending

end
end Plan

open Plan

section

variable {earlier : List TraceEvent} {limit : Nat} {calls : List Callable} {machine : Machine}
  (told : machine.Telling earlier limit calls)
include told

/-- A call is told when it starts, and told to be over when its callee ends with a result. -/
private theorem callPlan_tells (called : Value) (values : List Value) (callee : Expr) (paren : Token) (arguments : List Expr) :
    (callPlan called values paren machine).Tells earlier limit (Task.evaluate (.call callee paren arguments)).opens calls := by
  unfold callPlan
  cases called.callable? with
  | none => exact tells_interrupted told _
  | some callable =>
    dsimp only
    split
    next fits =>
      split
      next room =>
        refine ⟨told.entered room callable values paren, ?_, ?_⟩
        · intro cause after error
          refine ⟨_, _, rfl, ?_, ?_, rfl⟩ <;> split
          · exact .inr ⟨paren, rfl⟩
          · exact .refl cause
          · exact cause.atCall_unsignaled error paren
          · exact error
        · intro ending after ends calm told
          cases ending with
          | ok result =>
            rintro _ ⟨⟩
            exact told.returned result
          | error cause =>
            obtain ⟨fuel, stops⟩ := ends
            exact absurd (calm cause rfl) (invoke_unsignaled fits stops)
      next => exact tells_interrupted told _
    next => exact tells_interrupted told _

private theorem evaluatePlan_tells (expr : Expr) :
    (evaluatePlan machine expr).Tells earlier limit (Task.evaluate expr).opens calls := by
  cases expr with
  | literal value pos => exact tells_value told _
  | name token =>
    intro after ends
    dsimp only [lookup] at ends
    split at ends <;> cases ends <;> exact told
  | assign target value =>
    refine tells_first told rfl fun result after told => ?_
    intro last ends
    change (andThen (Run.assign target result) (fun _ => succeed result) after).after? = some last at ends
    unfold andThen Run.assign at ends
    cases found : after.heap.owner after.frame target after.search with
    | ok owner =>
      rw [found] at ends
      cases ends
      exact ⟨told.tracing, told.maxDepth, told.depth, told.trace⟩
    | error error =>
      rw [found] at ends
      cases ends
      exact told
  | ternary condition one two =>
    refine tells_first told rfl fun decision after told => ?_
    split
    · exact tells_last told rfl
    · exact tells_last told rfl
  | logical left operator right =>
    refine tells_first told rfl fun result after told => ?_
    split
    · exact tells_value told result
    · exact tells_last told rfl
  | binary left operator right =>
    exact tells_first told rfl fun _ _ told => tells_first told rfl fun _ _ told => tells_ofExcept told _
  | unary operator operand => exact tells_first told rfl fun _ _ told => tells_ofExcept told _
  | group inner => exact tells_last told rfl
  | call callee paren arguments =>
    refine tells_first told rfl fun called after told => tells_first told rfl fun values there told => ?_
    exact callPlan_tells told called values callee paren arguments
  | hole => exact tells_interrupted told _

private theorem evaluateAllPlan_tells (exprs : List Expr) :
    (evaluateAllPlan machine exprs).Tells earlier limit (Task.evaluateAll exprs).opens calls := by
  cases exprs with
  | nil => exact tells_value told []
  | cons expr rest =>
    exact tells_first told rfl fun one _ told => tells_first told rfl fun others _ told => tells_value told _

/-- The body of a function is carried out in the middle of its own call. -/
private theorem invokePlan_tells (callable : Callable) (arguments : List Value) :
    (invokePlan machine callable arguments).Tells earlier limit (Task.invoke callable arguments).opens calls := by
  cases callable with
  | function closure =>
    rw [invokePlan]
    split
    · have inside : (machine.opened closure.frame (closure.parameters.zip arguments)).Telling earlier limit calls :=
        ⟨told.tracing, told.maxDepth, told.depth, told.trace⟩
      refine tells_ask inside rfl ?_ ?_
      · intro cause after error
        refine ⟨{ after with frame := machine.frame }, ?_, rfl⟩
        cases cause with
        | failure _ | host _ => rfl
        | breakLoop _ | continueLoop _ | returnValue _ _ => exact absurd trivial error
      · intro ending after told
        have back : { after with frame := machine.frame }.Telling earlier limit calls :=
          ⟨told.tracing, told.maxDepth, told.depth, told.trace⟩
        cases ending with
        | ok result => exact tells_value back _
        | error cause =>
          cases cause with
          | returnValue _ _ => exact tells_value back _
          | failure _ | host _ | breakLoop _ | continueLoop _ => exact tells_interrupted back _
    · exact tells_interrupted told _
  | native builtin =>
    unfold invokePlan
    dsimp only
    split
    next value argument applies =>
      split
      · split
        · exact tells_last told rfl
        · exact tells_value told _
      · exact tells_value told _
    next arguments _ _ others =>
      obtain ⟨ending, _, _, _, _, _, ends⟩ := native_outward builtin arguments others machine
      have ended : Machine.invoke 1 (.native builtin) arguments machine = .ended ending _ :=
        ends machine.heap machine.maxDepth
      rw [ended]
      refine tells_ended ?_ ending
      exact ⟨told.tracing, told.maxDepth, told.depth, told.trace⟩

private theorem turn_tells {opens : Task → List Callable} {stmt : Stmt} (silent : opens (.execute stmt) = [])
    {next : Machine → Plan Unit}
    (goesOn : ∀ after, after.Telling earlier limit calls → (next after).Tells earlier limit opens calls) :
    (Plan.ask (.execute stmt) machine (turnEnded next)).Tells earlier limit opens calls := by
  refine tells_ask told silent ?_ ?_
  · intro cause after error
    refine ⟨after, ?_, rfl⟩
    cases cause with
    | failure _ | host _ => rfl
    | breakLoop _ | continueLoop _ | returnValue _ _ => exact absurd trivial error
  · intro ending after told
    cases ending with
    | ok result => exact goesOn after told
    | error cause =>
      cases cause with
      | continueLoop keyword => exact goesOn after told
      | breakLoop keyword => exact tells_value told ()
      | returnValue keyword value | failure error | host fault => exact tells_interrupted told _

private theorem repeatWhilePlan_tells (condition : Expr) (body : Stmt) (post : Option Stmt) :
    (repeatWhilePlan machine condition body post).Tells earlier limit (Task.repeatWhile condition body post).opens calls := by
  refine tells_first told rfl fun decision after told => ?_
  split
  · refine turn_tells told rfl fun turned told => ?_
    cases post with
    | none => exact tells_last told rfl
    | some stmt => exact turn_tells told rfl fun last told => tells_last told rfl
  · exact tells_value told ()

private theorem executePlan_tells (stmt : Stmt) :
    (executePlan machine stmt).Tells earlier limit (Task.execute stmt).opens calls := by
  cases stmt with
  | expression value => exact tells_first told rfl fun _ _ told => tells_value told ()
  | print value =>
    refine tells_first told rfl fun result after told => ?_
    intro last ends
    rcases write_after ends with rfl | rfl <;> exact ⟨told.tracing, told.maxDepth, told.depth, told.trace⟩
  | declare name initial =>
    cases initial with
    | none =>
      rintro _ ⟨⟩
      exact ⟨told.tracing, told.maxDepth, told.depth, told.trace⟩
    | some initial =>
      refine tells_first told rfl fun value after told => ?_
      rintro _ ⟨⟩
      exact ⟨told.tracing, told.maxDepth, told.depth, told.trace⟩
  | block body pos =>
    have inside : (machine.opened machine.frame []).Telling earlier limit calls :=
      ⟨told.tracing, told.maxDepth, told.depth, told.trace⟩
    refine tells_ask inside rfl (fun cause after _ => ⟨{ after with frame := machine.frame }, rfl, rfl⟩) ?_
    intro ending after told
    refine tells_ended ?_ ending
    exact ⟨told.tracing, told.maxDepth, told.depth, told.trace⟩
  | branch condition consequence alternative pos =>
    refine tells_first told rfl fun decision after told => ?_
    split
    · exact tells_last told rfl
    · cases alternative with
      | none => exact tells_value told ()
      | some alternative => exact tells_last told rfl
  | loop condition body post pos => exact tells_last told rfl
  | function name parameters body =>
    rintro _ ⟨⟩
    exact ⟨told.tracing, told.maxDepth, told.depth, told.trace⟩
  | returnValue keyword result =>
    cases result with
    | none => exact tells_interrupted told _
    | some result => exact tells_first told rfl fun _ _ told => tells_interrupted told _
  | breakLoop keyword | continueLoop keyword | hole => exact tells_interrupted told _

private theorem executeAllPlan_tells (stmts : List Stmt) :
    (executeAllPlan machine stmts).Tells earlier limit (Task.executeAll stmts).opens calls := by
  cases stmts with
  | nil => exact tells_value told ()
  | cons stmt rest => exact tells_first told rfl fun _ _ told => tells_last told rfl

private theorem Task.plan_tells (task : Task) : (task.plan machine).Tells earlier limit task.opens calls := by
  cases task with
  | evaluate expr => exact evaluatePlan_tells told expr
  | evaluateAll exprs => exact evaluateAllPlan_tells told exprs
  | invoke callable arguments => exact invokePlan_tells told callable arguments
  | execute stmt => exact executePlan_tells told stmt
  | executeAll stmts => exact executeAllPlan_tells told stmts
  | repeatWhile condition body post => exact repeatWhilePlan_tells told condition body post

end

section

variable {α : Type} {earlier : List TraceEvent} {limit fuel : Nat} {opens : Task → List Callable} {calls : List Callable}

/-- A task that a plan handed on ended with an error: so does the plan, and it tells nothing more. -/
private theorem Plan.Tells.passes {task : Task} {machine : Machine}
    {next : Except Interrupt task.Result → Machine → Plan α} {ending : Except Interrupt task.Result}
    (tells : (ask task machine next).Tells earlier limit opens calls) (after : Machine) (failed : ¬Calm ending) :
    ∃ cause raised stopped, ending = .error cause ∧ ¬cause.IsSignal ∧
      next ending after = .done (.interrupted raised stopped) ∧ cause.Surfaces raised ∧ ¬raised.IsSignal ∧
      stopped.trace = after.trace := by
  cases ending with
  | ok result => exact absurd (calm_ok result) failed
  | error cause =>
    have error : ¬cause.IsSignal := by
      intro signal
      refine failed ?_
      rintro _ ⟨⟩
      exact signal
    obtain ⟨raised, stopped, passes, surfaces, still, same⟩ := tells.2.1 cause after error
    exact ⟨cause, raised, stopped, rfl, error, passes, surfaces, still, same⟩

private theorem Plan.Tells.run {plan : Plan α} (tells : plan.Tells earlier limit opens calls)
    (inside : ∀ {task : Task} {machine after : Machine} {ending : Except Interrupt task.Result} {calls : List Callable},
      machine.Telling earlier limit calls → task.run fuel machine = .ended ending after → Calm ending →
      after.Telling earlier limit calls)
    {ending : Except Interrupt α} {after : Machine} (ends : plan.run (Task.run fuel) = .ended ending after)
    (calm : Calm ending) : after.Telling earlier limit calls := by
  induction plan with
  | done outcome =>
    refine tells after ?_
    change outcome = _ at ends
    rw [ends, Outcome.after?_ended]
  | ask task machine next ih =>
    rcases (task.run fuel machine).outOfFuel_or_ended with stops | ⟨ended, middle, first⟩
    · rw [Plan.run_outOfFuel next stops] at ends
      exact absurd ends.symm (Outcome.ended_ne_outOfFuel ending after)
    · rw [Plan.run_ended next first] at ends
      by_cases quiet : Calm ended
      · exact ih ended middle (tells.2.2 ended middle ⟨fuel, first⟩ quiet (inside tells.1 first quiet)) ends
      · obtain ⟨_, raised, stopped, _, _, passes, _, error, _⟩ := tells.passes middle quiet
        rw [passes] at ends
        cases ending with
        | ok result => cases ends
        | error cause =>
          have signal := calm cause rfl
          cases ends
          exact absurd signal error

/-- A task that ends without an error leaves just those calls open that were open before. -/
theorem Task.run_telling {task : Task} {machine after : Machine} {ending : Except Interrupt task.Result}
    (told : machine.Telling earlier limit calls) (ends : task.run fuel machine = .ended ending after) (calm : Calm ending) :
    after.Telling earlier limit calls := by
  induction fuel generalizing task machine after calls with
  | zero =>
    rw [Task.run_zero] at ends
    exact absurd ends.symm (Outcome.ended_ne_outOfFuel ending after)
  | succ fuel ih =>
    rw [Task.run_succ] at ends
    exact (task.plan_tells told).run (fun told ends calm => ih told ends calm) ends calm

theorem Plan.Tells.asked {plan : Plan α} {asked : Task} {point : Machine} (tells : plan.Tells earlier limit opens calls)
    (asks : plan.Asks asked point) : point.Telling earlier limit (opens asked ++ calls) := by
  induction asks with
  | here task machine next => exact tells.1
  | @later task machine after next ending asked point ends rest ih =>
    by_cases calm : Calm ending
    · obtain ⟨fuel, ended⟩ := ends
      exact ih (tells.2.2 ending after ⟨fuel, ended⟩ calm (Task.run_telling tells.1 ended calm))
    · obtain ⟨_, raised, stopped, _, _, passes, _⟩ := tells.passes after calm
      rw [passes] at rest
      cases rest

/-- At every point of a run just the calls under way are open. -/
theorem ReachesIn.telling {inner : List Callable} {task reached : Task} {machine there : Machine}
    (reaches : ReachesIn inner task machine reached there) (told : machine.Telling earlier limit calls) :
    there.Telling earlier limit (inner ++ calls) := by
  induction reaches generalizing calls with
  | start task machine => exact told
  | @ask inner task asked reached machine point there asks _ ih =>
    rw [List.append_assoc]
    exact ih ((task.plan_tells told).asked asks)

/-- A plan that ends with an error comes to it by itself, or a task that it hands on does. -/
private theorem Plan.Tells.fails {plan : Plan α} (tells : plan.Tells earlier limit opens calls) {cause : Interrupt}
    {after : Machine} (ends : plan.run (Task.run fuel) = .interrupted cause after) (error : ¬cause.IsSignal) :
    plan.Raises cause after ∧ after.Telling earlier limit calls ∨
      ∃ asked point raised stopped, plan.Asks asked point ∧ asked.run fuel point = .interrupted raised stopped ∧
        ¬raised.IsSignal ∧ raised.Surfaces cause ∧ after.trace = stopped.trace := by
  induction plan with
  | done outcome =>
    change outcome = _ at ends
    subst ends
    exact .inl ⟨.here error after, tells after rfl⟩
  | ask task machine next ih =>
    rcases (task.run fuel machine).outOfFuel_or_ended with stops | ⟨ended, middle, first⟩
    · rw [Plan.run_outOfFuel next stops] at ends
      cases ends
    · rw [Plan.run_ended next first] at ends
      by_cases calm : Calm ended
      · have told := Task.run_telling tells.1 first calm
        rcases ih ended middle (tells.2.2 ended middle ⟨fuel, first⟩ calm told) ends with
          ⟨raises, told⟩ | ⟨asked, point, raised, stopped, asks, fails⟩
        · exact .inl ⟨.later ⟨fuel, first⟩ calm raises, told⟩
        · exact .inr ⟨asked, point, raised, stopped, .later ⟨fuel, first⟩ asks, fails⟩
      · obtain ⟨raised, _, _, rfl, failed, passes, surfaces, _, same⟩ := tells.passes middle calm
        rw [passes] at ends
        cases ends
        exact .inr ⟨task, machine, raised, middle, .here task machine next, first, failed, surfaces, same⟩

/-- When a task ends with an error, the trace is as it was when the error arose, and leaves those calls open that
were under way then. -/
theorem Task.run_raises {task : Task} {machine after : Machine} {cause : Interrupt}
    (told : machine.Telling earlier limit calls) (ends : task.run fuel machine = .interrupted cause after)
    (error : ¬cause.IsSignal) : ∃ inner raised stopped, task.RaisesIn inner machine raised stopped ∧
      stopped.Telling earlier limit (inner ++ calls) ∧ raised.Surfaces cause ∧ after.trace = stopped.trace := by
  induction fuel generalizing task machine after cause calls with
  | zero =>
    rw [Task.run_zero] at ends
    cases ends
  | succ fuel ih =>
    rw [Task.run_succ] at ends
    rcases (task.plan_tells told).fails ends error with
      ⟨raises, told⟩ | ⟨asked, point, raised, stopped, asks, fails, error, surfaces, same⟩
    · exact ⟨[], cause, after, ⟨task, machine, .start task machine, raises⟩, told, .refl cause, rfl⟩
    · obtain ⟨inner, origin, first, ⟨reached, there, reaches, raises⟩, told, beneath, kept⟩ :=
        ih ((task.plan_tells told).asked asks) fails error
      refine ⟨inner ++ task.opens asked, origin, first, ⟨reached, there, .ask asks reaches, raises⟩, ?_,
        beneath.trans surfaces, same.trans kept⟩
      rw [List.append_assoc]
      exact told

end

/-- A program without an error ends as its statements do. -/
private theorem interpret_value {fuel : Nat} {stmts : List Stmt} {machine after : Machine}
    (ends : interpret fuel stmts machine = .value () after) :
    (Task.executeAll stmts).run fuel machine = .ended (.ok ()) after := by
  rw [interpret_fold] at ends
  change executeAll fuel stmts machine = .value () after
  cases outcome : executeAll fuel stmts machine with
  | value _ last =>
    rw [outcome] at ends
    exact ends
  | interrupted _ last | outOfFuel =>
    rw [outcome] at ends
    cases ends

/-- The trace of a program is well bracketed: at every point of its run, and behind every task that ends without an
error, just the calls under way are open. A program that ends without an error leaves no call open. One that ends with
an error has told nothing since the error arose, so that just those calls are open that were under way then; at the top
level there were none. -/
theorem trace_well_bracketed (stmts : List Stmt) (machine : Machine) (idle : machine.depth = 0)
    (tracing : machine.tracing = true) :
    (∀ reached there, Reaches (.executeAll stmts) machine reached there ↔
      ∃ calls, ReachesIn calls (.executeAll stmts) machine reached there) ∧
    (∀ calls reached there, ReachesIn calls (.executeAll stmts) machine reached there →
      there.Telling machine.trace.toList machine.maxDepth calls ∧
      ∀ ending after, reached.Ends there ending after → Calm ending →
        after.Telling machine.trace.toList machine.maxDepth calls) ∧
    (∀ fuel after, interpret fuel stmts machine = .value () after →
      after.Telling machine.trace.toList machine.maxDepth []) ∧
    ∀ fuel cause after, interpret fuel stmts machine = .interrupted cause after → ∃ stopped,
      after.trace = stopped.trace ∧
      ((∃ calls raised, (Task.executeAll stmts).RaisesIn calls machine raised stopped ∧ raised.Surfaces cause ∧
          stopped.Telling machine.trace.toList machine.maxDepth calls) ∨
        ∃ signal, (Task.executeAll stmts).Ends machine (.error signal) stopped ∧ signal.IsSignal ∧
          cause = signal.escaped ∧ stopped.Telling machine.trace.toList machine.maxDepth []) := by
  have start : machine.Telling machine.trace.toList machine.maxDepth [] :=
    ⟨tracing, rfl, idle, [], (List.append_nil _).symm, rfl⟩
  refine ⟨fun reached there => reaches_iff_in, ?_, ?_, ?_⟩
  · intro calls reached there reaches
    have told := reaches.telling start
    rw [List.append_nil] at told
    refine ⟨told, ?_⟩
    rintro ending after ⟨fuel, ends⟩ calm
    exact Task.run_telling told ends calm
  · intro fuel after ends
    exact Task.run_telling start (interpret_value ends) (calm_ok ())
  · intro fuel cause after stops
    obtain ⟨raised, last, ends, rfl, rfl⟩ := interpret_interrupted stops
    by_cases signal : raised.IsSignal
    · refine ⟨last, rfl, .inr ⟨raised, ⟨fuel, ends⟩, signal, rfl, ?_⟩⟩
      have ended : (Task.executeAll stmts).run fuel machine = .ended (.error raised) last := ends
      refine Task.run_telling start ended ?_
      rintro _ ⟨⟩
      exact signal
    · obtain ⟨calls, origin, stopped, raises, told, surfaces, same⟩ := Task.run_raises start ends signal
      rw [List.append_nil] at told
      refine ⟨stopped, same, .inl ⟨calls, origin, raises, ?_, told⟩⟩
      rw [Interrupt.escaped_eq signal]
      exact surfaces

/-- `fn g() { break; } fn f() { print("a"); g(); } f();` fails in `g` after `print` has returned. -/
def brokenCallee : List Stmt :=
  let name (c : Char) : Token := { kind := .identifier, lexeme := utf8 c }
  let call (callee : Token) (arguments : List Expr) : Stmt := .expression (.call (.name callee) default arguments)
  let print : Token := { kind := .identifier, lexeme := .ofString "print" }
  [.function (name 'g') [] [.breakLoop default],
    .function (name 'f') [] [call print [.literal (.string (utf8 'a')) {}], call (name 'g') []],
    call (name 'f') []]

theorem brokenCallee_bracketed :
    let machine := start { tracing := true }
    machine.depth = 0 ∧ machine.tracing = true ∧ ∃ (error : RuntimeError) (after stopped : Machine) (calls : List Callable),
      interpret 40 brokenCallee machine = .interrupted (.failure error) after ∧ after.trace = stopped.trace ∧
      stopped.Telling [] 1000 calls ∧ calls.map Callable.text = [.ofString "<fn g>", .ofString "<fn f>"] := by
  intro machine
  have fails : (interpret 40 brokenCallee machine).error? = some ⟨default, .misplacedBreak⟩ := by
    decide +kernel
  have leaves : (interpret 40 brokenCallee machine).after?.map (TraceEvent.openCalls? 1000 ·.trace.toList) =
      some (some [.ofString "<fn g>", .ofString "<fn f>"]) := by
    decide +kernel
  obtain ⟨after, stops⟩ := Outcome.of_error? fails
  rw [stops] at leaves
  have named : TraceEvent.openCalls? 1000 after.trace.toList = some [.ofString "<fn g>", .ofString "<fn f>"] :=
    Option.some.inj leaves
  obtain ⟨stopped, same, ⟨calls, _, _, _, told⟩ | ⟨_, _, _, _, told⟩⟩ :=
    (trace_well_bracketed brokenCallee machine rfl rfl).2.2.2 40 _ after stops
  all_goals
    obtain ⟨events, trace, found⟩ := told.trace
    have all : after.trace.toList = events := by rw [same, trace]; rfl
    rw [all] at named
    have texts := Option.some.inj (found.symm.trans named)
  · exact ⟨rfl, rfl, _, after, stopped, calls, stops, same, told, texts⟩
  · cases texts

end Machine
end Treewalk
