import Treewalk.Proofs.ProperValues

/-! What a run keeps up. Here the values that may be met depend on the machine on which they are met: a function can
keep a frame only once the frame is there. When every single operation keeps machines and values as they have to be, so
does every run, and at every point of it all values at hand are as they have to be: those that the tasks under way were
given, and those that were yielded for them since. -/

namespace Treewalk

theorem Interrupt.carried_atCall (cause : Interrupt) (paren : Token) :
    (cause.atCall paren).carried ⊆ cause.carried := by
  rcases Machine.atCall_cases cause paren with ⟨_, passed⟩ | ⟨fault, _, shown⟩
  · rw [passed]
    exact List.Subset.refl _
  · rw [shown]
    exact List.nil_subset _

theorem HostError.carried_interrupt (error : HostError) : error.interrupt.carried = [] := by
  cases error <;> rfl

namespace Machine
open Run

/-- The values at hand where a plan comes to hand on a task: what the tasks before it have yielded. -/
inductive Plan.AsksWith {α : Type} : List Value → Plan α → Task → Machine → Prop where
  | here (task : Task) (machine : Machine) (next : Except Interrupt task.Result → Machine → Plan α) :
      AsksWith [] (.ask task machine next) task machine
  | later {held : List Value} {task : Task} {machine after : Machine}
      {next : Except Interrupt task.Result → Machine → Plan α} {ending : Except Interrupt task.Result} {asked : Task}
      {point : Machine} (ends : task.Ends machine ending after) (rest : AsksWith held (next ending after) asked point) :
      AsksWith (task.yielded ending ++ held) (.ask task machine next) asked point

/-- The run of a task comes to the point where a task starts on a machine, with these values at hand. -/
inductive ReachesWith : List Value → Task → Machine → Task → Machine → Prop where
  | start (task : Task) (machine : Machine) : ReachesWith task.passed task machine task machine
  | ask {held more : List Value} {task asked reached : Task} {machine point there : Machine}
      (asks : Plan.AsksWith held (task.plan machine) asked point) (goesOn : ReachesWith more asked point reached there) :
      ReachesWith (task.passed ++ held ++ more) task machine reached there

theorem Plan.asks_iff_with {α : Type} {plan : Plan α} {asked : Task} {point : Machine} :
    plan.Asks asked point ↔ ∃ held, AsksWith held plan asked point := by
  constructor
  · intro asks
    induction asks with
    | here task machine next => exact ⟨[], .here task machine next⟩
    | later ends _ ih =>
      obtain ⟨held, rest⟩ := ih
      exact ⟨_, .later ends rest⟩
  · rintro ⟨held, asks⟩
    induction asks with
    | here task machine next => exact .here task machine next
    | later ends _ ih => exact .later ends ih

theorem reaches_iff_with {task reached : Task} {machine there : Machine} :
    Reaches task machine reached there ↔ ∃ held, ReachesWith held task machine reached there := by
  constructor
  · intro reaches
    induction reaches with
    | start task machine => exact ⟨_, .start task machine⟩
    | ask asks _ ih =>
      obtain ⟨held, asks⟩ := Plan.asks_iff_with.mp asks
      obtain ⟨more, goesOn⟩ := ih
      exact ⟨_, .ask asks goesOn⟩
  · rintro ⟨held, reaches⟩
    induction reaches with
    | start task machine => exact .start task machine
    | ask asks _ ih => exact .ask (Plan.asks_iff_with.mpr ⟨_, asks⟩) ih

/-- What has to hold of a machine, the values that may be met on it, and how machines may follow each other. -/
structure Upkeep where
  machine : Machine → Prop
  value : Machine → Value → Prop
  leads : Machine → Machine → Prop

namespace Upkeep

variable (upkeep : Upkeep)

/-- The second machine is as it has to be, and may follow the first. -/
def Goes (before after : Machine) : Prop :=
  upkeep.machine after ∧ upkeep.leads before after

def Meets (machine : Machine) (values : List Value) : Prop :=
  ∀ value ∈ values, upkeep.value machine value

/-- Every single operation keeps up what has to hold. -/
structure Lawful : Prop where
  refl : ∀ machine, upkeep.leads machine machine
  trans : ∀ {first second third}, upkeep.leads first second → upkeep.leads second third → upkeep.leads first third
  stable : ∀ {before after value}, upkeep.leads before after → upkeep.value before value → upkeep.value after value
  constant : ∀ {machine value}, value.IsConstant → upkeep.value machine value
  closure : ∀ {machine} id name parameters body, upkeep.machine machine →
    upkeep.value machine (.callable (.function ⟨id, name, parameters, body, machine.frame⟩))
  found : ∀ {machine name value}, upkeep.machine machine → machine.heap.get machine.frame name machine.search = .ok value →
    upkeep.value machine value
  outside : ∀ {machine} input output trace nextId ticks depth, upkeep.machine machine →
    upkeep.Goes machine { machine with input, output, trace, nextId, ticks, depth }
  assign : ∀ {machine name owner value}, upkeep.machine machine → machine.heap.owner machine.frame name machine.search = .ok owner →
    upkeep.value machine value → upkeep.Goes machine { machine with heap := machine.heap.define owner name.lexeme value }
  define : ∀ {machine value} name, upkeep.machine machine → upkeep.value machine value ∨ value = .uninitialized →
    upkeep.Goes machine { machine with heap := machine.heap.define machine.frame name value }
  opened : ∀ {machine parent bindings}, upkeep.machine machine →
    parent = machine.frame ∨ (∃ closure, upkeep.value machine (.callable (.function closure)) ∧ closure.frame = parent) →
    (∀ binding ∈ bindings, upkeep.value machine binding.2) → upkeep.Goes machine (machine.opened parent bindings)
  back : ∀ {before after}, upkeep.machine before → upkeep.Goes before after →
    upkeep.Goes after { after with frame := before.frame }

def Outcomes {α : Type} (yields : α → List Value) (before : Machine) : Outcome α → Prop
  | .value result after => upkeep.Goes before after ∧ upkeep.Meets after (yields result)
  | .interrupted cause after => upkeep.Goes before after ∧ upkeep.Meets after cause.carried
  | .outOfFuel => True

/-- A plan comes to such an outcome, and the tasks that it hands on start as they have to, when the tasks before them
ended so. -/
def Plans {α : Type} (yields : α → List Value) : Machine → Plan α → Prop
  | before, .done outcome => upkeep.Outcomes yields before outcome
  | before, .ask task machine next =>
    upkeep.Goes before machine ∧ upkeep.Meets machine task.passed ∧
    ∀ ending after, upkeep.Goes machine after → upkeep.Meets after (task.yielded ending) →
      Plans yields after (next ending after)

section

variable {upkeep} {machine : Machine}

theorem Outcomes.goes {α : Type} {yields : α → List Value} {outcome : Outcome α} {after : Machine}
    (kept : upkeep.Outcomes yields machine outcome) (ends : outcome.after? = some after) : upkeep.Goes machine after := by
  cases outcome with
  | value result last | interrupted cause last =>
    cases ends
    exact kept.1
  | outOfFuel => cases ends

theorem Meets.nothing : upkeep.Meets machine [] :=
  fun _ none => nomatch none

theorem Meets.single {value : Value} (met : upkeep.value machine value) : upkeep.Meets machine [value] := by
  intro other member
  obtain rfl := List.mem_singleton.mp member
  exact met

end
end Upkeep

namespace Upkeep.Lawful

section

variable {upkeep : Upkeep} (lawful : upkeep.Lawful) {α : Type} {yields : α → List Value} {before machine after : Machine}
include lawful

theorem stays (holds : upkeep.machine machine) : upkeep.Goes machine machine :=
  ⟨holds, lawful.refl machine⟩

theorem follows (first : upkeep.Goes before machine) (second : upkeep.Goes machine after) : upkeep.Goes before after :=
  ⟨second.1, lawful.trans first.2 second.2⟩

theorem still {values : List Value} (meets : upkeep.Meets before values) (goes : upkeep.Goes before after) :
    upkeep.Meets after values :=
  fun value member => lawful.stable goes.2 (meets value member)

theorem atDepth (holds : upkeep.machine machine) (depth : Nat) : upkeep.Goes machine { machine with depth } :=
  lawful.outside machine.input machine.output machine.trace machine.nextId machine.ticks depth holds

theorem recorded (holds : upkeep.machine machine) (event : TraceEvent) : upkeep.Goes machine (machine.recorded event) := by
  unfold Machine.recorded
  split
  · exact lawful.outside machine.input machine.output _ machine.nextId machine.ticks machine.depth holds
  · exact lawful.stays holds

theorem interrupted (holds : upkeep.machine machine) {cause : Interrupt} (meets : upkeep.Meets machine cause.carried) :
    upkeep.Plans yields machine (.done (.interrupted cause machine)) :=
  ⟨lawful.stays holds, meets⟩

theorem valued (holds : upkeep.machine machine) {result : α} (meets : upkeep.Meets machine (yields result)) :
    upkeep.Plans yields machine (.done (.value result machine)) :=
  ⟨lawful.stays holds, meets⟩

theorem operation (holds : upkeep.machine machine) {result : Except RuntimeError Value}
    (constant : ∀ value, result = .ok value → value.IsConstant) :
    upkeep.Plans (fun value => [value]) machine (.done (ofExcept result machine)) := by
  cases result with
  | ok value => exact lawful.valued holds (.single (lawful.constant (constant value rfl)))
  | error error => exact lawful.interrupted holds .nothing

section

variable {task : Task} (holds : upkeep.machine machine) (given : upkeep.Meets machine task.passed)
include holds given

theorem first {next : task.Result → Machine → Plan α}
    (goesOn : ∀ result after, upkeep.Goes machine after → upkeep.Meets after (task.yielded (.ok result)) →
      upkeep.Plans yields after (next result after)) :
    upkeep.Plans yields machine (.first task machine next) := by
  refine ⟨lawful.stays holds, given, fun ending after goes meets => ?_⟩
  cases ending with
  | ok result => exact goesOn result after goes meets
  | error cause =>
    rw [Task.yielded_error] at meets
    exact lawful.interrupted goes.1 meets

theorem last : upkeep.Plans (fun result => task.yielded (.ok result)) machine (.last task machine) := by
  refine ⟨lawful.stays holds, given, fun ending after goes meets => ?_⟩
  cases ending with
  | ok result => exact lawful.valued goes.1 meets
  | error cause =>
    rw [Task.yielded_error] at meets
    exact lawful.interrupted goes.1 meets

end

/-- A call takes its values along, and what it yields comes from its callee. -/
private theorem callPlan_kept (holds : upkeep.machine machine) {called : Value} {values : List Value}
    (met : upkeep.value machine called) (meets : upkeep.Meets machine values) (paren : Token) :
    upkeep.Plans (fun value => [value]) machine (callPlan called values paren machine) := by
  unfold callPlan
  cases found : called.callable? with
  | none => exact lawful.interrupted holds .nothing
  | some callable =>
    obtain rfl : called = .callable callable := by
      cases called <;> cases found
      rfl
    dsimp only
    split
    · split
      · have deeper := lawful.atDepth holds (machine.depth + 1)
        have enters : upkeep.Goes machine (machine.entered callable values paren) :=
          lawful.follows deeper (lawful.recorded deeper.1 _)
        have given : upkeep.Meets machine (Task.invoke callable values).passed := List.forall_mem_cons.mpr ⟨met, meets⟩
        refine ⟨enters, lawful.still given enters, fun ending after goes yielded => ?_⟩
        cases ending with
        | ok result =>
          let told := after.recorded (.returned callable.text result.text)
          have tells : upkeep.Goes after told := lawful.recorded goes.1 _
          have leaves := lawful.follows tells (lawful.atDepth tells.1 (told.depth - 1))
          exact ⟨leaves, lawful.still yielded leaves⟩
        | error cause =>
          have leaves := lawful.atDepth goes.1 (after.depth - 1)
          refine ⟨leaves, lawful.still ?_ leaves⟩
          split
          · exact fun value member => yielded value (cause.carried_atCall paren member)
          · exact yielded
      · exact lawful.interrupted holds .nothing
    · exact lawful.interrupted holds .nothing

private theorem assign_kept (holds : upkeep.machine machine) (target : Token) {value : Value}
    (met : upkeep.value machine value) :
    upkeep.Plans (fun value => [value]) machine (.done ((do Run.assign target value; return value : Run Value) machine)) := by
  change upkeep.Outcomes _ machine (andThen (Run.assign target value) (fun _ => succeed value) machine)
  unfold andThen Run.assign
  cases found : machine.heap.owner machine.frame target machine.search with
  | ok owner =>
    have assigned := lawful.assign holds found met
    exact ⟨assigned, .single (lawful.stable assigned.2 met)⟩
  | error error => exact ⟨lawful.stays holds, .nothing⟩

private theorem evaluatePlan_kept (holds : upkeep.machine machine) (expr : Expr) :
    upkeep.Plans (fun value => [value]) machine (evaluatePlan machine expr) := by
  cases expr with
  | literal value pos => exact lawful.valued holds (.single (lawful.constant value.toValue_constant))
  | name token =>
    change upkeep.Outcomes _ machine (lookup token machine)
    unfold lookup
    cases found : machine.heap.get machine.frame token machine.search with
    | ok value => exact ⟨lawful.stays holds, .single (lawful.found holds found)⟩
    | error error => exact ⟨lawful.stays holds, .nothing⟩
  | assign target value =>
    refine lawful.first holds .nothing fun result after goes met => ?_
    exact lawful.assign_kept goes.1 target (met result List.mem_cons_self)
  | ternary condition one two =>
    refine lawful.first holds .nothing fun decision after goes _ => ?_
    split
    · exact lawful.last goes.1 .nothing
    · exact lawful.last goes.1 .nothing
  | logical left operator right =>
    refine lawful.first holds .nothing fun result after goes met => ?_
    split
    · exact lawful.valued goes.1 met
    · exact lawful.last goes.1 .nothing
  | binary left operator right =>
    refine lawful.first holds .nothing fun one after goes _ => lawful.first goes.1 .nothing fun two last goes _ => ?_
    exact lawful.operation goes.1 fun _ => Operator.binary_constant
  | unary operator operand =>
    refine lawful.first holds .nothing fun result after goes _ => ?_
    exact lawful.operation goes.1 fun _ => Operator.unary_constant
  | group inner => exact lawful.last holds .nothing
  | call callee paren arguments =>
    refine lawful.first holds .nothing fun called after goes met => lawful.first goes.1 .nothing fun values last goes meets => ?_
    exact lawful.callPlan_kept goes.1 (lawful.still met goes called List.mem_cons_self) meets paren
  | hole => exact lawful.interrupted holds .nothing

private theorem evaluateAllPlan_kept (holds : upkeep.machine machine) (exprs : List Expr) :
    upkeep.Plans id machine (evaluateAllPlan machine exprs) := by
  cases exprs with
  | nil => exact lawful.valued holds .nothing
  | cons expr rest =>
    refine lawful.first holds .nothing fun one after goes met => lawful.first goes.1 .nothing fun others last goes meets => ?_
    exact lawful.valued goes.1 (List.forall_mem_cons.mpr ⟨lawful.still met goes one List.mem_cons_self, meets⟩)

/-- A function is carried out in a new frame inside the one that it keeps. -/
private theorem invokePlan_kept (holds : upkeep.machine machine) {callable : Callable} {arguments : List Value}
    (given : upkeep.Meets machine (Task.invoke callable arguments).passed) :
    upkeep.Plans (fun value => [value]) machine (invokePlan machine callable arguments) := by
  obtain ⟨known, meets⟩ := List.forall_mem_cons.mp given
  cases callable with
  | function closure =>
    rw [invokePlan]
    split
    · have opens : upkeep.Goes machine (machine.opened closure.frame (closure.parameters.zip arguments)) :=
        lawful.opened holds (.inr ⟨closure, known, rfl⟩) fun binding bound => meets _ (List.of_mem_zip bound).2
      refine ⟨opens, .nothing, fun ending after goes yielded => ?_⟩
      have back := lawful.back holds (lawful.follows opens goes)
      cases ending with
      | ok result => exact ⟨back, .single (lawful.constant .null)⟩
      | error cause =>
        cases cause with
        | returnValue keyword value => exact ⟨back, lawful.still yielded back⟩
        | failure error | host fault | breakLoop keyword | continueLoop keyword => exact ⟨back, .nothing⟩
    · exact lawful.interrupted holds .nothing
  | native builtin =>
    unfold invokePlan
    dsimp only
    split
    next value argument applies =>
      cases found : value.callable? with
      | none => exact lawful.valued holds (.single (lawful.constant .null))
      | some callable =>
        obtain rfl : value = .callable callable := by
          cases value <;> cases found
          rfl
        dsimp only
        split
        · exact lawful.last holds meets
        · exact lawful.valued holds (.single (lawful.constant .null))
    next arguments _ _ others =>
      obtain ⟨ending, input, output, ticks, constant, _, ends⟩ := native_outward builtin arguments others machine
      have ended : Machine.invoke 1 (.native builtin) arguments machine = .ended ending _ :=
        ends machine.heap machine.maxDepth
      have goes := lawful.outside input output machine.trace machine.nextId ticks machine.depth holds
      rw [ended]
      cases ending with
      | ok value => exact ⟨goes, .single (lawful.constant (constant value rfl))⟩
      | error cause =>
        refine ⟨goes, ?_⟩
        rcases native_interrupt ended with ⟨fault, _, rfl⟩ | ⟨error, _, rfl⟩ | ⟨_, text, rfl⟩
        · exact .nothing
        · rw [error.carried_interrupt]
          exact .nothing
        · exact .nothing

private theorem turn_kept (holds : upkeep.machine machine) (stmt : Stmt) {next : Machine → Plan Unit}
    (goesOn : ∀ after, upkeep.machine after → upkeep.Plans (fun _ => []) after (next after)) :
    upkeep.Plans (fun _ => []) machine (.ask (.execute stmt) machine (turnEnded next)) := by
  refine ⟨lawful.stays holds, .nothing, fun ending after goes yielded => ?_⟩
  cases ending with
  | ok result => exact goesOn after goes.1
  | error cause =>
    cases cause with
    | continueLoop keyword => exact goesOn after goes.1
    | breakLoop keyword => exact lawful.valued goes.1 .nothing
    | returnValue keyword value | failure error | host fault => exact lawful.interrupted goes.1 yielded

private theorem repeatWhilePlan_kept (holds : upkeep.machine machine) (condition : Expr) (body : Stmt) (post : Option Stmt) :
    upkeep.Plans (fun _ => []) machine (repeatWhilePlan machine condition body post) := by
  have again : ∀ after, upkeep.machine after →
      upkeep.Plans (fun _ => []) after (.last (.repeatWhile condition body post) after) :=
    fun after holds => lawful.last holds .nothing
  refine lawful.first holds .nothing fun decision after goes _ => ?_
  split
  · refine lawful.turn_kept goes.1 body fun turned holds => ?_
    cases post with
    | none => exact again turned holds
    | some stmt => exact lawful.turn_kept holds stmt again
  · exact lawful.valued goes.1 .nothing

private theorem executePlan_kept (holds : upkeep.machine machine) (stmt : Stmt) :
    upkeep.Plans (fun _ => []) machine (executePlan machine stmt) := by
  cases stmt with
  | expression value => exact lawful.first holds .nothing fun _ after goes _ => lawful.valued goes.1 .nothing
  | print value =>
    refine lawful.first holds .nothing fun result after goes _ => ?_
    change upkeep.Outcomes _ after (write _ after)
    unfold write
    have wrote := fun output => lawful.outside after.input output after.trace after.nextId after.ticks after.depth goes.1
    split
    next error _ =>
      refine ⟨wrote after.output.refused, ?_⟩
      rw [error.carried_interrupt]
      exact .nothing
    next => exact ⟨wrote (after.output.add (.printed (result.text ++ Bytes.newline))), .nothing⟩
  | declare name initial =>
    cases initial with
    | none => exact ⟨lawful.define name.lexeme holds (.inr rfl), .nothing⟩
    | some initial =>
      refine lawful.first holds .nothing fun value after goes met => ?_
      exact ⟨lawful.define name.lexeme goes.1 (.inl (met value List.mem_cons_self)), .nothing⟩
  | block body pos =>
    have opens : upkeep.Goes machine (machine.opened machine.frame []) := lawful.opened holds (.inl rfl) (by simp)
    refine ⟨opens, .nothing, fun ending after goes yielded => ?_⟩
    have back := lawful.back holds (lawful.follows opens goes)
    cases ending with
    | ok result => exact ⟨back, .nothing⟩
    | error cause => exact ⟨back, lawful.still yielded back⟩
  | branch condition consequence alternative pos =>
    refine lawful.first holds .nothing fun decision after goes _ => ?_
    split
    · exact lawful.last goes.1 .nothing
    · cases alternative with
      | none => exact lawful.valued goes.1 .nothing
      | some alternative => exact lawful.last goes.1 .nothing
  | loop condition body post pos => exact lawful.last holds .nothing
  | function name parameters body =>
    have counted := lawful.outside machine.input machine.output machine.trace (machine.nextId + 1)
      machine.ticks machine.depth holds
    have kept := lawful.closure machine.nextId name.lexeme (parameters.map (·.lexeme)) body counted.1
    exact ⟨lawful.follows counted (lawful.define name.lexeme counted.1 (.inl kept)), .nothing⟩
  | returnValue keyword result =>
    cases result with
    | none => exact lawful.interrupted holds (.single (lawful.constant .null))
    | some result => exact lawful.first holds .nothing fun value after goes met => lawful.interrupted goes.1 met
  | breakLoop keyword | continueLoop keyword | hole => exact lawful.interrupted holds .nothing

private theorem executeAllPlan_kept (holds : upkeep.machine machine) (stmts : List Stmt) :
    upkeep.Plans (fun _ => []) machine (executeAllPlan machine stmts) := by
  cases stmts with
  | nil => exact lawful.valued holds .nothing
  | cons stmt rest => exact lawful.first holds .nothing fun _ after goes _ => lawful.last goes.1 .nothing

private theorem plan_kept (holds : upkeep.machine machine) {task : Task} (given : upkeep.Meets machine task.passed) :
    upkeep.Plans (fun result => task.yielded (.ok result)) machine (task.plan machine) := by
  cases task with
  | evaluate expr => exact lawful.evaluatePlan_kept holds expr
  | evaluateAll exprs => exact lawful.evaluateAllPlan_kept holds exprs
  | invoke callable arguments => exact lawful.invokePlan_kept holds given
  | execute stmt => exact lawful.executePlan_kept holds stmt
  | executeAll stmts => exact lawful.executeAllPlan_kept holds stmts
  | repeatWhile condition body post => exact lawful.repeatWhilePlan_kept holds condition body post

omit lawful in
theorem ended {task : Task} {outcome : Outcome task.Result} {ending : Except Interrupt task.Result}
    (kept : upkeep.Outcomes (fun result => task.yielded (.ok result)) before outcome) (ends : outcome = .ended ending after) :
    upkeep.Goes before after ∧ upkeep.Meets after (task.yielded ending) := by
  subst ends
  cases ending with
  | ok result => exact kept
  | error cause =>
    rw [Task.yielded_error]
    exact kept

private theorem run_plan {fuel : Nat} {plan : Plan α} (kept : upkeep.Plans yields machine plan)
    (inside : ∀ {task : Task} {machine : Machine}, upkeep.machine machine → upkeep.Meets machine task.passed →
      upkeep.Outcomes (fun result => task.yielded (.ok result)) machine (task.run fuel machine))
    (goes : upkeep.Goes before machine) : upkeep.Outcomes yields before (plan.run (Task.run fuel)) := by
  induction plan generalizing machine with
  | done outcome =>
    change upkeep.Outcomes yields machine outcome at kept
    change upkeep.Outcomes yields before outcome
    cases outcome with
    | value result after => exact ⟨lawful.follows goes kept.1, kept.2⟩
    | interrupted cause after => exact ⟨lawful.follows goes kept.1, kept.2⟩
    | outOfFuel => trivial
  | ask task point next ih =>
    obtain ⟨starts, given, goesOn⟩ := kept
    rcases (task.run fuel point).outOfFuel_or_ended with stops | ⟨ending, after, ends⟩
    · rw [Plan.run_outOfFuel next stops]
      trivial
    · obtain ⟨leads, yielded⟩ := ended (inside starts.1 given) ends
      rw [Plan.run_ended next ends]
      exact ih ending after (goesOn ending after leads yielded) (lawful.follows goes (lawful.follows starts leads))

/-- However a task ends, the machine is as it has to be, and so are the values that the task yields. -/
theorem runs (fuel : Nat) {task : Task} (holds : upkeep.machine machine) (given : upkeep.Meets machine task.passed) :
    upkeep.Outcomes (fun result => task.yielded (.ok result)) machine (task.run fuel machine) := by
  induction fuel generalizing task machine with
  | zero =>
    rw [Task.run_zero]
    trivial
  | succ fuel ih =>
    rw [Task.run_succ]
    exact lawful.run_plan (lawful.plan_kept holds given) ih (lawful.stays holds)

theorem ends {task : Task} {ending : Except Interrupt task.Result} (holds : upkeep.machine machine)
    (given : upkeep.Meets machine task.passed) (ends : task.Ends machine ending after) :
    upkeep.Goes machine after ∧ upkeep.Meets after (task.yielded ending) := by
  obtain ⟨fuel, ran⟩ := ends
  exact ended (lawful.runs fuel holds given) ran

private theorem asked {plan : Plan α} {held : List Value} {asked : Task} {point : Machine}
    (kept : upkeep.Plans yields machine plan) (asks : Plan.AsksWith held plan asked point) :
    upkeep.Goes machine point ∧ upkeep.Meets point (held ++ asked.passed) := by
  induction asks generalizing machine with
  | here task point next => exact ⟨kept.1, kept.2.1⟩
  | @later held task start after next ending asked point ends _ ih =>
    obtain ⟨starts, given, goesOn⟩ := kept
    obtain ⟨leads, yielded⟩ := lawful.ends starts.1 given ends
    obtain ⟨goes, meets⟩ := ih (goesOn ending after leads yielded)
    refine ⟨lawful.follows starts (lawful.follows leads goes), ?_⟩
    rw [List.append_assoc]
    exact List.forall_mem_append.mpr ⟨lawful.still yielded goes, meets⟩

/-- At every point of a run, the machine is as it has to be, and so are the values at hand. -/
theorem reached {held : List Value} {task reached : Task} {there : Machine} (holds : upkeep.machine machine)
    (given : upkeep.Meets machine task.passed) (reaches : ReachesWith held task machine reached there) :
    upkeep.Goes machine there ∧ upkeep.Meets there held ∧ upkeep.Meets there reached.passed := by
  induction reaches with
  | start task machine => exact ⟨lawful.stays holds, given, given⟩
  | ask asks _ ih =>
    obtain ⟨starts, meets⟩ := lawful.asked (lawful.plan_kept holds given) asks
    obtain ⟨held, passed⟩ := List.forall_mem_append.mp meets
    obtain ⟨goes, more, last⟩ := ih starts.1 passed
    have still := lawful.still held goes
    have first := lawful.still given (lawful.follows starts goes)
    exact ⟨lawful.follows starts goes,
      List.forall_mem_append.mpr ⟨List.forall_mem_append.mpr ⟨first, still⟩, more⟩, last⟩

end
end Upkeep.Lawful
end Machine
end Treewalk
