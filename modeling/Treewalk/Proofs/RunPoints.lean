import Treewalk.Proofs.RunMirror

/-! The points that a run comes through. The work of the evaluator is cut into tasks, one for each of its
rules; the plan of a task says which other tasks it hands work to, and what it makes of their endings.
The tasks that are handed on, with the machines on which they start, are the points of a run, also of
one that never ends. -/

namespace Treewalk.Machine
open Run

/-- What the evaluator can be busy with. -/
inductive Task where
  | evaluate (expr : Expr)
  | evaluateAll (exprs : List Expr)
  | invoke (callable : Callable) (arguments : List Value)
  | execute (stmt : Stmt)
  | executeAll (stmts : List Stmt)
  | repeatWhile (condition : Expr) (body : Stmt) (post : Option Stmt)

@[reducible] def Task.Result : Task → Type
  | evaluate _ | invoke _ _ => Value
  | evaluateAll _ => List Value
  | execute _ | executeAll _ | repeatWhile _ _ _ => Unit

def Task.run (fuel : Nat) : (task : Task) → Run task.Result
  | evaluate expr => Machine.evaluate fuel expr
  | evaluateAll exprs => Machine.evaluateAll fuel exprs
  | invoke callable arguments => Machine.invoke fuel callable arguments
  | execute stmt => Machine.execute fuel stmt
  | executeAll stmts => Machine.executeAll fuel stmts
  | repeatWhile condition body post => Machine.repeatWhile fuel condition body post

end Machine

def Outcome.ended {α : Type} : Except Interrupt α → Machine → Outcome α
  | .ok result, machine => .value result machine
  | .error cause, machine => .interrupted cause machine

theorem Outcome.ended_ne_outOfFuel {α : Type} (ending : Except Interrupt α) (machine : Machine) :
    ended ending machine ≠ outOfFuel := by
  intro same
  cases ending <;> cases same

theorem Outcome.outOfFuel_or_ended {α : Type} (outcome : Outcome α) :
    outcome = outOfFuel ∨ ∃ ending machine, outcome = ended ending machine := by
  cases outcome with
  | value result machine => exact .inr ⟨.ok result, machine, rfl⟩
  | interrupted cause machine => exact .inr ⟨.error cause, machine, rfl⟩
  | outOfFuel => exact .inl rfl

namespace Machine
open Run

/-- A task as far as it gets by itself: it is done, or hands on another task and goes on from the
ending of that. -/
inductive Plan (α : Type) where
  | done (outcome : Outcome α)
  | ask (task : Task) (machine : Machine) (next : Except Interrupt task.Result → Machine → Plan α)

namespace Plan

variable {α : Type}

/-- Goes on with the result of a task; an interrupt of the task ends the plan. -/
def first (task : Task) (machine : Machine) (next : task.Result → Machine → Plan α) : Plan α :=
  .ask task machine fun ending after =>
    match ending with
    | .ok result => next result after
    | .error cause => .done (.interrupted cause after)

def last (task : Task) (machine : Machine) : Plan task.Result :=
  .ask task machine fun ending after => .done (.ended ending after)

/-- Carries out a plan, given a way to carry out the tasks that it hands on. -/
def run (perform : (task : Task) → Run task.Result) : Plan α → Outcome α
  | done outcome => outcome
  | ask task machine next =>
    (perform task machine).fold (fun result after => (next (.ok result) after).run perform)
      fun cause after => (next (.error cause) after).run perform

end Plan

def recorded (machine : Machine) (event : TraceEvent) : Machine :=
  if machine.tracing then { machine with trace := machine.trace.push event } else machine

/-- The machine in a new frame inside `parent`, in which the names of a list are bound. -/
def opened (machine : Machine) (parent : FrameId) (bindings : List (Bytes × Value)) : Machine :=
  let (frame, heap) := machine.heap.alloc (some parent)
  { machine with heap := heap.defineAll frame bindings, frame }

def entered (machine : Machine) (callee : Callable) (arguments : List Value) (paren : Token) : Machine :=
  recorded { machine with depth := machine.depth + 1 }
    (.called callee.text arguments.length paren.pos.line (machine.depth + 1))

def callEnded (callee : Callable) (paren : Token) : Except Interrupt Value → Machine → Outcome Value
  | .ok result, machine =>
    let told := machine.recorded (.returned callee.text result.text)
    .value result { told with depth := told.depth - 1 }
  | .error cause, machine =>
    .interrupted (if callee.isNative then cause.atCall paren else cause) { machine with depth := machine.depth - 1 }

def callPlan (called : Value) (values : List Value) (paren : Token) (machine : Machine) : Plan Value :=
  match called.callable? with
  | none => .done (.interrupted (.failure ⟨paren, .notCallable⟩) machine)
  | some callable =>
    if callable.arity = values.length then
      if machine.depth < machine.maxDepth then
        .ask (.invoke callable values) (machine.entered callable values paren) fun ending after =>
          .done (callEnded callable paren ending after)
      else .done (.interrupted (.failure ⟨paren, .stackOverflow⟩) machine)
    else .done (.interrupted (.failure ⟨paren, .wrongArity callable.arity values.length⟩) machine)

def evaluatePlan (machine : Machine) : Expr → Plan Value
  | .literal value _ => .done (.value value.toValue machine)
  | .name token => .done (lookup token machine)
  | .assign target value =>
    .first (.evaluate value) machine fun result after =>
      .done ((do Run.assign target result; return result : Run Value) after)
  | .ternary condition one two =>
    .first (.evaluate condition) machine fun decision after =>
      if decision.isTruthy then .last (.evaluate one) after else .last (.evaluate two) after
  | .logical left operator right =>
    .first (.evaluate left) machine fun result after =>
      if Operator.decides operator result then .done (.value result after) else .last (.evaluate right) after
  | .binary left operator right =>
    .first (.evaluate left) machine fun one after =>
      .first (.evaluate right) after fun two after => .done (ofExcept (Operator.binary operator one two) after)
  | .unary operator operand =>
    .first (.evaluate operand) machine fun result after => .done (ofExcept (Operator.unary operator result) after)
  | .group inner => .last (.evaluate inner) machine
  | .call callee paren arguments =>
    .first (.evaluate callee) machine fun called after =>
      .first (.evaluateAll arguments) after fun values after => callPlan called values paren after
  | .hole => .done (.interrupted (.host .missingExpression) machine)

def evaluateAllPlan (machine : Machine) : List Expr → Plan (List Value)
  | [] => .done (.value [] machine)
  | expr :: rest =>
    .first (.evaluate expr) machine fun one after =>
      .first (.evaluateAll rest) after fun others after => .done (.value (one :: others) after)

def bodyEnded : Except Interrupt Unit → Machine → Outcome Value
  | .ok _, machine => .value .null machine
  | .error cause, machine => resultOf cause machine

def invokePlan (machine : Machine) : Callable → List Value → Plan Value
  | .function closure, arguments =>
    if closure.parameters.length = arguments.length then
      .ask (.executeAll closure.body) (machine.opened closure.frame (closure.parameters.zip arguments))
        fun ending after => .done (bodyEnded ending { after with frame := machine.frame })
    else .done (.interrupted (.host .missingArgument) machine)
  | .native builtin, arguments =>
    match builtin.primitive, arguments with
    | .apply, [value, argument] =>
      match value.callable? with
      | some callable =>
        if callable.arity = 1 then .last (.invoke callable [argument]) machine else .done (.value .null machine)
      | none => .done (.value .null machine)
    | _, _ => .done (Machine.invoke 1 (.native builtin) arguments machine)

def turnEnded (next : Machine → Plan Unit) : Except Interrupt Unit → Machine → Plan Unit
  | .ok _, machine => next machine
  | .error (.continueLoop _), machine => next machine
  | .error (.breakLoop _), machine => .done (.value () machine)
  | .error cause, machine => .done (.interrupted cause machine)

def executePlan (machine : Machine) : Stmt → Plan Unit
  | .expression value => .first (.evaluate value) machine fun _ after => .done (.value () after)
  | .print value => .first (.evaluate value) machine fun result after => .done (writeLine result.text after)
  | .declare name none => .done (define name.lexeme .uninitialized machine)
  | .declare name (some initial) =>
    .first (.evaluate initial) machine fun value after => .done (define name.lexeme value after)
  | .block body _ =>
    .ask (.executeAll body) (machine.opened machine.frame []) fun ending after =>
      .done (.ended ending { after with frame := machine.frame })
  | .branch condition consequence alternative _ =>
    .first (.evaluate condition) machine fun decision after =>
      if decision.isTruthy then .last (.execute consequence) after
      else
        match alternative with
        | some alternative => .last (.execute alternative) after
        | none => .done (.value () after)
  | .loop condition body post _ => .last (.repeatWhile condition body post) machine
  | .breakLoop keyword => .done (.interrupted (.breakLoop keyword) machine)
  | .continueLoop keyword => .done (.interrupted (.continueLoop keyword) machine)
  | .function name parameters body =>
    let closure : Closure :=
      { id := machine.nextId, name := name.lexeme, parameters := parameters.map (·.lexeme), body,
        frame := machine.frame }
    .done (define name.lexeme (.callable (.function closure)) { machine with nextId := machine.nextId + 1 })
  | .returnValue keyword none => .done (.interrupted (.returnValue keyword .null) machine)
  | .returnValue keyword (some result) =>
    .first (.evaluate result) machine fun value after => .done (.interrupted (.returnValue keyword value) after)
  | .hole => .done (.interrupted (.host .missingStatement) machine)

def executeAllPlan (machine : Machine) : List Stmt → Plan Unit
  | [] => .done (.value () machine)
  | stmt :: rest => .first (.execute stmt) machine fun _ after => .last (.executeAll rest) after

def repeatWhilePlan (machine : Machine) (condition : Expr) (body : Stmt) (post : Option Stmt) : Plan Unit :=
  .first (.evaluate condition) machine fun decision after =>
    if decision.isTruthy then
      .ask (.execute body) after (turnEnded fun after =>
        match post with
        | some stmt => .ask (.execute stmt) after (turnEnded (.last (.repeatWhile condition body post)))
        | none => .last (.repeatWhile condition body post) after)
    else .done (.value () after)

def Task.plan (machine : Machine) : (task : Task) → Plan task.Result
  | evaluate expr => evaluatePlan machine expr
  | evaluateAll exprs => evaluateAllPlan machine exprs
  | invoke callable arguments => invokePlan machine callable arguments
  | execute stmt => executePlan machine stmt
  | executeAll stmts => executeAllPlan machine stmts
  | repeatWhile condition body post => repeatWhilePlan machine condition body post

section

variable {α β : Type}

theorem Plan.run_first (perform : (task : Task) → Run task.Result) (task : Task) (machine : Machine)
    (next : task.Result → Machine → Plan α) : (first task machine next).run perform =
      andThen (perform task) (fun result after => (next result after).run perform) machine := by
  unfold first andThen
  rw [run]
  cases perform task machine <;> rfl

theorem Plan.run_last (perform : (task : Task) → Run task.Result) (task : Task) (machine : Machine) :
    (last task machine).run perform = perform task machine := by
  unfold last
  rw [run]
  cases perform task machine <;> rfl

private theorem andThen_fold (body : Run α) (next : α → Run β) (machine : Machine) :
    andThen body next machine = (body machine).fold next .interrupted := by
  unfold andThen
  cases body machine <;> rfl

private theorem intercept_fold (body : Run α) (handler : Interrupt → Run α) (machine : Machine) :
    body.intercept handler machine = (body machine).fold .value handler := by
  unfold intercept
  cases body machine <;> rfl

private theorem within_fold (frame : FrameId) (body : Run α) (machine : Machine) : within frame body machine =
    (body { machine with frame }).fold (fun result after => .value result { after with frame := machine.frame })
      fun cause after => .interrupted cause { after with frame := machine.frame } := by
  unfold within
  dsimp only
  cases body { machine with frame } <;> rfl

private theorem asCall_fold (body : Run α) (machine : Machine) : asCall body machine =
    (body { machine with depth := machine.depth + 1 }).fold
      (fun result after => .value result { after with depth := after.depth - 1 })
      fun cause after => .interrupted cause { after with depth := after.depth - 1 } := by
  unfold asCall
  cases body { machine with depth := machine.depth + 1 } <;> rfl

private theorem continues_fold (body : Run Unit) (machine : Machine) : continues body machine =
    (body machine).fold (fun _ => .value true) fun cause after => continues (interrupt cause) after := by
  unfold continues
  cases body machine <;> rfl

variable (fuel : Nat) (machine : Machine)

private theorem traced_plan (callable : Callable) (values : List Value) (paren : Token)
    (room : machine.depth < machine.maxDepth) :
    traced callable values paren (invoke fuel callable values) machine =
      (Plan.ask (.invoke callable values) (machine.entered callable values paren) fun ending after =>
        .done (callEnded callable paren ending after)).run (Task.run fuel) := by
  change (if machine.depth < machine.maxDepth then asCall _ else Run.fail paren .stackOverflow : Run Value) machine = _
  rw [if_pos room, Plan.run, asCall_fold]
  change Outcome.fold _ _ (andThen (intercept (invoke fuel callable values) _) _ (machine.entered callable values paren)) =
    Outcome.fold _ _ (invoke fuel callable values (machine.entered callable values paren))
  rw [andThen_fold, intercept_fold]
  cases invoke fuel callable values (machine.entered callable values paren) <;> rfl

private theorem callPlan_run (called : Value) (values : List Value) (paren : Token) :
    (callPlan called values paren machine).run (Task.run fuel) =
      (match called.callable? with
      | none => Run.fail paren .notCallable
      | some callable =>
        if callable.arity = values.length then traced callable values paren (invoke fuel callable values)
        else Run.fail paren (.wrongArity callable.arity values.length) : Run Value) machine := by
  unfold callPlan
  cases called.callable? with
  | none => rfl
  | some callable =>
    dsimp only
    split
    next =>
      split
      next room => exact (traced_plan fuel machine callable values paren room).symm
      next full =>
        change _ = (if machine.depth < machine.maxDepth then asCall _ else Run.fail paren .stackOverflow : Run Value) machine
        rw [if_neg full]
        rfl
    next => rfl

private theorem evaluate_plan (expr : Expr) :
    evaluate (fuel + 1) expr machine = (evaluatePlan machine expr).run (Task.run fuel) := by
  cases expr with
  | literal value pos | name token | hole => rfl
  | assign target value =>
    rw [evaluatePlan, Plan.run_first]
    rfl
  | ternary condition one two =>
    rw [evaluatePlan, Plan.run_first]
    change andThen (evaluate fuel condition) _ machine = _
    congr 1
    funext decision after
    split
    · exact (Plan.run_last (Task.run fuel) (.evaluate one) after).symm
    · exact (Plan.run_last (Task.run fuel) (.evaluate two) after).symm
  | logical left operator right =>
    rw [evaluatePlan, Plan.run_first]
    change andThen (evaluate fuel left) _ machine = _
    congr 1
    funext result after
    split
    · rfl
    · exact (Plan.run_last (Task.run fuel) (.evaluate right) after).symm
  | binary left operator right =>
    simp only [evaluatePlan, Plan.run_first]
    rfl
  | unary operator operand =>
    rw [evaluatePlan, Plan.run_first]
    rfl
  | group inner => exact (Plan.run_last (Task.run fuel) (.evaluate inner) machine).symm
  | call callee paren arguments =>
    simp only [evaluatePlan, Plan.run_first, callPlan_run]
    rfl

private theorem evaluateAll_plan (exprs : List Expr) :
    evaluateAll (fuel + 1) exprs machine = (evaluateAllPlan machine exprs).run (Task.run fuel) := by
  cases exprs with
  | nil => rfl
  | cons expr rest =>
    simp only [evaluateAllPlan, Plan.run_first]
    rfl

private theorem invoke_plan (callable : Callable) (arguments : List Value) :
    invoke (fuel + 1) callable arguments machine = (invokePlan machine callable arguments).run (Task.run fuel) := by
  cases callable with
  | function closure =>
    rw [invoke, invokePlan]
    split
    next =>
      rw [Plan.run]
      change intercept (andThen (within machine.heap.frames.size (executeAll fuel closure.body)) _) resultOf _ = _
      rw [intercept_fold, andThen_fold, within_fold]
      change Outcome.fold _ _ (Outcome.fold _ _ (Outcome.fold _ _ (executeAll fuel closure.body
        (machine.opened closure.frame (closure.parameters.zip arguments))))) =
        Outcome.fold _ _ (executeAll fuel closure.body (machine.opened closure.frame (closure.parameters.zip arguments)))
      cases executeAll fuel closure.body (machine.opened closure.frame (closure.parameters.zip arguments)) <;> rfl
    next => rfl
  | native builtin =>
    obtain ⟨id, name, arity, primitive⟩ := builtin
    cases primitive with
    | apply =>
      rcases arguments with _ | ⟨value, _ | ⟨argument, _ | ⟨_, _⟩⟩⟩
      case cons.cons.nil =>
        simp only [invoke, invokePlan]
        cases value.callable? with
        | none => rfl
        | some callable =>
          dsimp only
          split
          · exact (Plan.run_last (Task.run fuel) (.invoke callable [argument]) machine).symm
          · rfl
      all_goals rfl
    | clock | fail | inert | foreign index => rfl
    | print | input | raise => rcases arguments with _ | ⟨value, _ | ⟨_, _⟩⟩ <;> rfl

private theorem execute_plan (stmt : Stmt) :
    execute (fuel + 1) stmt machine = (executePlan machine stmt).run (Task.run fuel) := by
  cases stmt with
  | expression value | print value =>
    rw [executePlan, Plan.run_first]
    rfl
  | declare name initial =>
    cases initial with
    | none => rfl
    | some initial =>
      rw [executePlan, Plan.run_first]
      rfl
  | block body pos =>
    change within machine.heap.frames.size (executeAll fuel body) _ = _
    rw [executePlan, Plan.run, within_fold]
    change Outcome.fold _ _ (executeAll fuel body (machine.opened machine.frame [])) =
      Outcome.fold _ _ (executeAll fuel body (machine.opened machine.frame []))
    cases executeAll fuel body (machine.opened machine.frame []) <;> rfl
  | branch condition consequence alternative pos =>
    rw [executePlan, Plan.run_first]
    change andThen (evaluate fuel condition) _ machine = _
    congr 1
    funext decision after
    split
    · exact (Plan.run_last (Task.run fuel) (.execute consequence) after).symm
    · cases alternative with
      | none => rfl
      | some alternative => exact (Plan.run_last (Task.run fuel) (.execute alternative) after).symm
  | loop condition body post pos => exact (Plan.run_last (Task.run fuel) (.repeatWhile condition body post) machine).symm
  | breakLoop keyword | continueLoop keyword | function name parameters body | hole => rfl
  | returnValue keyword result =>
    cases result with
    | none => rfl
    | some result =>
      rw [executePlan, Plan.run_first]
      rfl

private theorem executeAll_plan (stmts : List Stmt) :
    executeAll (fuel + 1) stmts machine = (executeAllPlan machine stmts).run (Task.run fuel) := by
  cases stmts with
  | nil => rfl
  | cons stmt rest =>
    rw [executeAllPlan, Plan.run_first]
    change andThen (execute fuel stmt) _ machine = _
    congr 1
    funext _ after
    exact (Plan.run_last (Task.run fuel) (.executeAll rest) after).symm

/-- A turn of a loop goes on unless a `break` or something worse stops it. -/
private theorem continues_plan (stmt : Stmt) (next : Machine → Plan Unit) (goesOn : Run Unit)
    (same : ∀ after, goesOn after = (next after).run (Task.run fuel)) :
    andThen (continues (execute fuel stmt)) (fun again => if again then goesOn else pure ()) machine =
      (Plan.ask (.execute stmt) machine (turnEnded next)).run (Task.run fuel) := by
  rw [andThen_fold, continues_fold, Plan.run]
  change _ = Outcome.fold _ _ (execute fuel stmt machine)
  cases execute fuel stmt machine with
  | value result after => exact same after
  | interrupted cause after =>
    cases cause with
    | continueLoop keyword => exact same after
    | _ => rfl
  | outOfFuel => rfl

private theorem repeatWhile_plan (condition : Expr) (body : Stmt) (post : Option Stmt) :
    repeatWhile (fuel + 1) condition body post machine =
      (repeatWhilePlan machine condition body post).run (Task.run fuel) := by
  have again : ∀ after, repeatWhile fuel condition body post after =
      (Plan.last (.repeatWhile condition body post) after).run (Task.run fuel) :=
    fun after => (Plan.run_last (Task.run fuel) (.repeatWhile condition body post) after).symm
  rw [repeatWhile, repeatWhilePlan, Plan.run_first]
  change andThen (evaluate fuel condition) _ machine = _
  congr 1
  funext decision after
  split
  · apply continues_plan
    intro after
    cases post with
    | none => exact again after
    | some stmt => exact continues_plan fuel after stmt _ _ again
  · rfl

end

/-- With one more unit of fuel a task is carried out as planned. -/
theorem Task.run_succ (fuel : Nat) (task : Task) (machine : Machine) :
    task.run (fuel + 1) machine = (task.plan machine).run (Task.run fuel) := by
  cases task with
  | evaluate expr => exact evaluate_plan fuel machine expr
  | evaluateAll exprs => exact evaluateAll_plan fuel machine exprs
  | invoke callable arguments => exact invoke_plan fuel machine callable arguments
  | execute stmt => exact execute_plan fuel machine stmt
  | executeAll stmts => exact executeAll_plan fuel machine stmts
  | repeatWhile condition body post => exact repeatWhile_plan fuel machine condition body post

theorem Task.run_zero (task : Task) (machine : Machine) : task.run 0 machine = .outOfFuel := by
  cases task with
  | evaluateAll list | executeAll list => cases list <;> rfl
  | invoke callable arguments => cases callable <;> rfl
  | _ => rfl

section

variable {α : Type} {perform : (task : Task) → Run task.Result} {task : Task} {machine : Machine}
  (next : Except Interrupt task.Result → Machine → Plan α)

theorem Plan.run_ended {ending : Except Interrupt task.Result} {after : Machine}
    (ends : perform task machine = .ended ending after) :
    (ask task machine next).run perform = (next ending after).run perform := by
  rw [run, ends]
  cases ending <;> rfl

theorem Plan.run_outOfFuel (stops : perform task machine = .outOfFuel) :
    (ask task machine next).run perform = .outOfFuel := by
  rw [run, stops]
  rfl

end

theorem Plan.run_more {α : Type} {fewer more : (task : Task) → Run task.Result}
    (kept : ∀ task machine, fewer task machine ≠ .outOfFuel → more task machine = fewer task machine) (plan : Plan α)
    (ended : plan.run fewer ≠ .outOfFuel) : plan.run more = plan.run fewer := by
  induction plan with
  | done outcome => rfl
  | ask task machine next ih =>
    rcases (fewer task machine).outOfFuel_or_ended with stops | ⟨ending, after, ends⟩
    · exact absurd (run_outOfFuel next stops) ended
    · have same := kept task machine (by rw [ends]; exact Outcome.ended_ne_outOfFuel ending after)
      rw [run_ended next ends] at ended ⊢
      rw [run_ended next (same.trans ends)]
      exact ih ending after ended

/-- More fuel changes nothing for a task that ended. -/
theorem Task.run_more {fuel more : Nat} (enough : fuel ≤ more) {task : Task} {machine : Machine}
    (ended : task.run fuel machine ≠ .outOfFuel) : task.run more machine = task.run fuel machine := by
  induction fuel generalizing more task machine with
  | zero => exact absurd (task.run_zero machine) ended
  | succ fuel ih =>
    obtain ⟨more, rfl⟩ : ∃ fewer, more = fewer + 1 := ⟨more - 1, by omega⟩
    rw [run_succ] at ended ⊢
    rw [run_succ]
    exact Plan.run_more (fun task machine => ih (by omega)) (task.plan machine) ended

/-- What is left of an interrupt at the top level. -/
theorem interpret_fold (fuel : Nat) (stmts : List Stmt) (machine : Machine) : interpret fuel stmts machine =
    (executeAll fuel stmts machine).fold .value fun cause after =>
      .interrupted cause.escaped { after with frame := after.globals, depth := 0 } := by
  unfold interpret
  cases executeAll fuel stmts machine <;> rfl

theorem interpret_interrupted {fuel : Nat} {stmts : List Stmt} {machine after : Machine} {cause : Interrupt}
    (stops : interpret fuel stmts machine = .interrupted cause after) : ∃ raised last,
      (Task.executeAll stmts).run fuel machine = .interrupted raised last ∧ cause = raised.escaped ∧
      after = { last with frame := last.globals, depth := 0 } := by
  rw [interpret_fold] at stops
  cases outcome : executeAll fuel stmts machine with
  | interrupted raised last =>
    rw [outcome] at stops
    cases stops
    exact ⟨raised, last, outcome, rfl, rfl⟩
  | value _ last | outOfFuel =>
    rw [outcome] at stops
    cases stops

def Task.Ends (task : Task) (machine : Machine) (ending : Except Interrupt task.Result) (after : Machine) : Prop :=
  ∃ fuel, task.run fuel machine = .ended ending after

/-- Some fuel is enough for two tasks that can end. -/
theorem Task.Ends.together {task other : Task} {machine beside after last : Machine} {ending : Except Interrupt task.Result}
    {ended : Except Interrupt other.Result} (first : task.Ends machine ending after) (second : other.Ends beside ended last) :
    ∃ fuel, task.run fuel machine = .ended ending after ∧ other.run fuel beside = .ended ended last := by
  obtain ⟨fuel, first⟩ := first
  obtain ⟨more, second⟩ := second
  have firstKept := run_more (Nat.le_max_left fuel more) (by rw [first]; exact Outcome.ended_ne_outOfFuel ending after)
  have secondKept := run_more (Nat.le_max_right fuel more) (by rw [second]; exact Outcome.ended_ne_outOfFuel ended last)
  exact ⟨max fuel more, firstKept.trans first, secondKept.trans second⟩

/-- A plan comes to hand on a task, after the tasks before it have ended. -/
inductive Plan.Asks {α : Type} : Plan α → Task → Machine → Prop where
  | here (task : Task) (machine : Machine) (next : Except Interrupt task.Result → Machine → Plan α) :
      Asks (.ask task machine next) task machine
  | later {task : Task} {machine after : Machine} {next : Except Interrupt task.Result → Machine → Plan α}
      {ending : Except Interrupt task.Result} {asked : Task} {point : Machine} (ends : task.Ends machine ending after)
      (rest : Asks (next ending after) asked point) : Asks (.ask task machine next) asked point

/-- The run of a task comes to the point where a task starts on a machine. -/
inductive Reaches : Task → Machine → Task → Machine → Prop where
  | start (task : Task) (machine : Machine) : Reaches task machine task machine
  | ask {task asked reached : Task} {machine point there : Machine} (asks : (task.plan machine).Asks asked point)
      (goesOn : Reaches asked point reached there) : Reaches task machine reached there

end Machine
end Treewalk
