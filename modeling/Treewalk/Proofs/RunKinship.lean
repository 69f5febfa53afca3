import Treewalk.Proofs.RunFailures

/-! Machines on which a program goes the same way. A kinship says which machines are akin, and what trees,
values and interrupts both sides may meet. When every single operation keeps it, so does every run: the
two runs yield the same and leave akin machines, and whatever is met at a point of the run is as the
kinship says. A run on a machine that is akin to itself is a case of this. -/

namespace Treewalk

/-- Where a statement stands: is a loop of the same function around it, and is a function? -/
structure Place where
  looped : Bool
  inFunction : Bool
  deriving DecidableEq, Repr

namespace Place

def top : Place := ⟨false, false⟩

def body : Place := ⟨false, true⟩

def inLoop (place : Place) : Place :=
  { place with looped := true }

end Place

def Expr.parts : Expr → List Expr
  | assign _ value => [value]
  | ternary condition first second => [condition, first, second]
  | logical left _ right | binary left _ right => [left, right]
  | unary _ operand => [operand]
  | group inner => [inner]
  | call callee _ arguments => callee :: arguments
  | literal _ _ | name _ | hole => []

def Stmt.exprs : Stmt → List Expr
  | expression value | print value => [value]
  | declare _ initial => initial.toList
  | branch condition _ _ _ | loop condition _ _ _ => [condition]
  | returnValue _ result => result.toList
  | block _ _ | breakLoop _ | continueLoop _ | function _ _ _ | hole => []

/-- The statements of which a statement is made, and the places where they stand. -/
def Stmt.parts (place : Place) : Stmt → List (Place × Stmt)
  | block body _ => body.map (place, ·)
  | branch _ consequence alternative _ => (place, consequence) :: alternative.toList.map (place, ·)
  | loop _ body post _ => (place.inLoop, body) :: post.toList.map (place.inLoop, ·)
  | function _ _ body => body.map (.body, ·)
  | expression _ | print _ | declare _ _ | breakLoop _ | continueLoop _ | returnValue _ _ | hole => []

inductive Value.IsConstant : Value → Prop where
  | null : IsConstant .null
  | bool (value : Bool) : IsConstant (.bool value)
  | number (value : Float) : IsConstant (.number value)
  | string (value : Bytes) : IsConstant (.string value)

/-- What `input` yields is a constant. -/
theorem LineRead.toValue_constant (read : LineRead) : ((read.line?.map Value.string).getD .null).IsConstant := by
  cases read.line? with
  | none => exact .null
  | some line => exact .string line

theorem Literal.toValue_constant (literal : Literal) : literal.toValue.IsConstant := by
  cases literal <;> constructor

namespace Operator

private theorem repetition_constant {operator : Token} {text : Bytes} {count : Float} {value : Value}
    (yields : repetition operator text count = .ok value) : value.IsConstant := by
  unfold repetition at yields
  split at yields
  · cases yields
  · split at yields <;> cases yields
    constructor
  · split at yields
    · cases yields
    · split at yields
      · cases yields
        constructor
      · split at yields <;> cases yields
        constructor

private theorem arithmetic_constant {operator : Token} {left right : Float} {value : Value}
    (yields : arithmetic operator left right = .ok value) : value.IsConstant := by
  unfold arithmetic at yields
  split at yields
  case h_2 =>
    split at yields <;> cases yields
    constructor
  all_goals
    cases yields
    try constructor

theorem binary_constant {operator : Token} {left right value : Value} (yields : binary operator left right = .ok value) :
    value.IsConstant := by
  unfold binary at yields
  split at yields
  · cases yields
    constructor
  · cases yields
    constructor
  · unfold sum at yields
    split at yields <;> cases yields <;> constructor
  · unfold product at yields
    split at yields
    · exact repetition_constant yields
    · exact repetition_constant yields
    · cases yields
      constructor
    · cases yields
  · split at yields
    · exact arithmetic_constant yields
    · cases yields

theorem unary_constant {operator : Token} {operand value : Value} (yields : unary operator operand = .ok value) :
    value.IsConstant := by
  unfold unary at yields
  split at yields
  · split at yields <;> cases yields
    constructor
  · cases yields
    constructor
  · cases yields

end Operator

namespace Machine
open Run

/-- Akin machines, and what may be met on both of them: errors that the host hands over, values,
expressions, statements where they stand, interrupts of an expression or of a declared function, those of
a built-in function, and those of a statement. With `cut`, the first run may end in a stack overflow
before the second one does. -/
structure Kinship where
  machine : Machine → Machine → Prop
  handed : HostError → Prop
  value : Value → Prop
  expr : Expr → Prop
  stmt : Place → Stmt → Prop
  fault : Interrupt → Prop
  raised : Interrupt → Prop
  leaves : Place → Interrupt → Prop
  cut : Prop

namespace Kinship

structure KeepsTrees (kin : Kinship) : Prop where
  parts : ∀ {expr}, kin.expr expr → ∀ part ∈ expr.parts, kin.expr part
  exprs : ∀ {place stmt}, kin.stmt place stmt → ∀ expr ∈ stmt.exprs, kin.expr expr
  stmts : ∀ {place stmt}, kin.stmt place stmt → ∀ part ∈ stmt.parts place, kin.stmt part.1 part.2
  constant : ∀ {value : Value}, value.IsConstant → kin.value value
  closure : ∀ {a b place name parameters body} id, kin.machine a b → kin.stmt place (.function name parameters body) →
    kin.value (.callable (.function ⟨id, name.lexeme, parameters.map (·.lexeme), body, a.frame⟩))
  body : ∀ {closure}, kin.value (.callable (.function closure)) → ∀ stmt ∈ closure.body, kin.stmt .body stmt

/-- Akin machines differ in their heaps and limits only, and stay akin. -/
structure KeepsMachines (kin : Kinship) : Prop where
  same : ∀ {a b}, kin.machine a b → b = { a with heap := b.heap, maxDepth := b.maxDepth }
  handsOver : ∀ {a b error}, kin.machine a b → a.HandsOver error → kin.handed error
  outside : ∀ {a b} input output trace nextId ticks, kin.machine a b →
    (∀ error, ({ a with input, output } : Machine).HandsOver error → kin.handed error) →
    kin.machine { a with input, output, trace, nextId, ticks } { b with input, output, trace, nextId, ticks }
  room : ∀ {a b}, kin.machine a b → a.depth < a.maxDepth → b.depth < b.maxDepth
  full : ∀ {a b}, kin.machine a b → ¬a.depth < a.maxDepth → b.depth < b.maxDepth → kin.cut
  enter : ∀ {a b}, kin.machine a b → a.depth < a.maxDepth →
    kin.machine { a with depth := a.depth + 1 } { b with depth := b.depth + 1 }
  leave : ∀ {a b}, kin.machine a b → kin.machine { a with depth := a.depth - 1 } { b with depth := b.depth - 1 }
  lookup : ∀ {a b} name, kin.machine a b → b.heap.get b.frame name b.search = a.heap.get a.frame name a.search
  found : ∀ {a b name value}, kin.machine a b → a.heap.get a.frame name a.search = .ok value → kin.value value
  owner : ∀ {a b} name, kin.machine a b → b.heap.owner b.frame name b.search = a.heap.owner a.frame name a.search
  assign : ∀ {a b name owner value}, kin.machine a b → a.heap.owner a.frame name a.search = .ok owner → kin.value value →
    kin.machine { a with heap := a.heap.define owner name.lexeme value }
      { b with heap := b.heap.define owner name.lexeme value }
  define : ∀ {a b value} name, kin.machine a b → kin.value value ∨ value = .uninitialized →
    kin.machine { a with heap := a.heap.define a.frame name value } { b with heap := b.heap.define b.frame name value }
  opened : ∀ {a b parent bindings}, kin.machine a b →
    parent = a.frame ∨ (∃ closure, kin.value (.callable (.function closure)) ∧ closure.frame = parent) →
    (∀ binding ∈ bindings, kin.value binding.2) → kin.machine (a.opened parent bindings) (b.opened parent bindings)
  back : ∀ {first second a b}, kin.machine first second → kin.machine a b →
    kin.machine { a with frame := first.frame } { b with frame := second.frame }

structure KeepsInterrupts (kin : Kinship) : Prop where
  name : ∀ {token cause}, kin.expr (.name token) → cause.OfName → kin.fault (.failure ⟨token, cause⟩)
  target : ∀ {token value cause}, kin.expr (.assign token value) → cause.OfName → kin.fault (.failure ⟨token, cause⟩)
  operands : ∀ {left operator right one two error}, kin.expr (.binary left operator right) →
    Operator.binary operator one two = .error error → kin.fault (.failure error)
  operand : ∀ {operator operand value error}, kin.expr (.unary operator operand) →
    Operator.unary operator value = .error error → kin.fault (.failure error)
  call : ∀ {callee paren arguments} cause, kin.expr (.call callee paren arguments) →
    cause = .notCallable ∨ cause = .stackOverflow ∨ (∃ expected found, cause = .wrongArity expected found) →
    kin.fault (.failure ⟨paren, cause⟩)
  missingExpression : kin.expr .hole → kin.fault (.host .missingExpression)
  native : ∀ {builtin arguments machine cause after}, kin.value (.callable (.native builtin)) →
    builtin.arity = (arguments : List Value).length → (∀ error, machine.HandsOver error → kin.handed error) →
    invoke 1 (.native builtin) arguments machine = .interrupted cause after → kin.raised cause
  passed : ∀ {cause}, kin.fault cause → kin.raised cause
  shown : ∀ {callee paren arguments cause}, kin.expr (.call callee paren arguments) → kin.raised cause →
    kin.fault (cause.atCall paren)
  refused : ∀ {place value error}, kin.stmt place (.print value) → kin.handed error → kin.leaves place error.interrupt
  missingStatement : ∀ {place}, kin.stmt place .hole → kin.leaves place (.host .missingStatement)
  breakLoop : ∀ {place keyword}, kin.stmt place (.breakLoop keyword) → kin.leaves place (.breakLoop keyword)
  continueLoop : ∀ {place keyword}, kin.stmt place (.continueLoop keyword) → kin.leaves place (.continueLoop keyword)
  returnValue : ∀ {place keyword result value}, kin.stmt place (.returnValue keyword result) → kin.value value →
    kin.leaves place (.returnValue keyword value)
  returned : ∀ {place keyword value}, kin.leaves place (.returnValue keyword value) → kin.value value
  thrown : ∀ {place cause}, kin.fault cause → kin.leaves place cause
  unlooped : ∀ {place cause}, kin.leaves place.inLoop cause → (∀ keyword, cause ≠ .breakLoop keyword) →
    (∀ keyword, cause ≠ .continueLoop keyword) → kin.leaves place cause
  escaped : ∀ {cause}, kin.leaves .body cause → (∀ keyword value, cause ≠ .returnValue keyword value) →
    kin.fault cause.escaped

structure Lawful (kin : Kinship) : Prop extends kin.KeepsTrees, kin.KeepsMachines, kin.KeepsInterrupts

section

variable (kin : Kinship) (place : Place)

/-- What a task may be about. -/
def Fits : Task → Prop
  | .evaluate expr => kin.expr expr
  | .evaluateAll exprs => ∀ expr ∈ exprs, kin.expr expr
  | .invoke callable arguments =>
    kin.value (.callable callable) ∧ (∀ value ∈ arguments, kin.value value) ∧ callable.arity = arguments.length
  | .execute stmt => kin.stmt place stmt
  | .executeAll stmts => ∀ stmt ∈ stmts, kin.stmt place stmt
  | .repeatWhile condition body post =>
    kin.expr condition ∧ kin.stmt place.inLoop body ∧ ∀ stmt ∈ post, kin.stmt place.inLoop stmt

def Results : (task : Task) → task.Result → Prop
  | .evaluate _, value | .invoke _ _, value => kin.value value
  | .evaluateAll _, values => ∀ value ∈ values, kin.value value
  | .execute _, _ | .executeAll _, _ | .repeatWhile _ _ _, _ => True

def Causes : Task → Interrupt → Prop
  | .evaluate _, cause | .evaluateAll _, cause => kin.fault cause
  | .invoke callable _, cause => if callable.isNative then kin.raised cause else kin.fault cause
  | .execute _, cause | .executeAll _, cause | .repeatWhile _ _ _, cause => kin.leaves place cause

def Endings (task : Task) : Except Interrupt task.Result → Prop
  | .ok result => kin.Results task result
  | .error cause => kin.Causes place task cause

end

section

variable (kin : Kinship) {α : Type} (results : α → Prop) (causes : Interrupt → Prop)

inductive Outcomes : Outcome α → Outcome α → Prop where
  | value {result a b} : results result → kin.machine a b → Outcomes (.value result a) (.value result b)
  | interrupted {cause a b} : causes cause → kin.machine a b → Outcomes (.interrupted cause a) (.interrupted cause b)
  | outOfFuel : Outcomes .outOfFuel .outOfFuel
  | cutOff {paren a outcome} : kin.cut → (∀ after, outcome.after? = some after → Wrote a after) →
      Outcomes (.interrupted (.failure ⟨paren, .stackOverflow⟩) a) outcome

/-- Two plans that hand on the same tasks on akin machines. -/
inductive Plans : Plan α → Plan α → Prop where
  | done {outcome other} : kin.Outcomes results causes outcome other → Plans (.done outcome) (.done other)
  | ask {task a b next other} (place : Place) : kin.Fits place task → kin.machine a b →
      (∀ ending first second, kin.Endings place task ending → kin.machine first second →
        Plans (next ending first) (other ending second)) →
      Plans (.ask task a next) (.ask task b other)
  | cutOff {paren a b plan overflows} : kin.cut → a.output = b.output → Plan.Orderly overflows b plan →
      Plans (.done (.interrupted (.failure ⟨paren, .stackOverflow⟩) a)) plan

variable {kin results causes} {a b : Machine} {place : Place} {task : Task}

theorem Plans.value {result : α} (allowed : results result) (akin : kin.machine a b) :
    kin.Plans results causes (.done (.value result a)) (.done (.value result b)) :=
  .done (.value allowed akin)

theorem Plans.interrupted {cause : Interrupt} (allowed : causes cause) (akin : kin.machine a b) :
    kin.Plans results causes (.done (.interrupted cause a)) (.done (.interrupted cause b)) :=
  .done (.interrupted allowed akin)

theorem Plans.first {next other : task.Result → Machine → Plan α} (fits : kin.Fits place task) (akin : kin.machine a b)
    (passed : ∀ cause, kin.Causes place task cause → causes cause)
    (goesOn : ∀ result first second, kin.Results task result → kin.machine first second →
      kin.Plans results causes (next result first) (other result second)) :
    kin.Plans results causes (.first task a next) (.first task b other) := by
  refine .ask place fits akin fun ending first second ends still => ?_
  cases ending with
  | ok result => exact goesOn result first second ends still
  | error cause => exact .interrupted (passed cause ends) still

theorem Plans.last {results : task.Result → Prop} (fits : kin.Fits place task) (akin : kin.machine a b)
    (passed : ∀ cause, kin.Causes place task cause → causes cause)
    (yields : ∀ result, kin.Results task result → results result) :
    kin.Plans results causes (.last task a) (.last task b) := by
  refine .ask place fits akin fun ending first second ends still => ?_
  cases ending with
  | ok result => exact .value (yields result ends) still
  | error cause => exact .interrupted (passed cause ends) still

/-- Plans that hand on the same tasks have the same outcome, when the tasks have. -/
theorem Plans.run {plan other : Plan α} {fuel : Nat} (akin : kin.Plans results causes plan other)
    (inside : ∀ place task a b, kin.Fits place task → kin.machine a b →
      kin.Outcomes (kin.Results task) (kin.Causes place task) (task.run fuel a) (task.run fuel b))
    {overflows exceeds : Token → Prop} {before start : Machine} (first : plan.Orderly overflows before)
    (second : other.Orderly exceeds start) :
    kin.Outcomes results causes (plan.run (Task.run fuel)) (other.run (Task.run fuel)) := by
  induction akin generalizing overflows exceeds before start with
  | done outcomes => exact outcomes
  | cutOff allowed same orderly =>
    refine .cutOff allowed fun after ends => ?_
    exact wrote_allows.trans (.of_output_eq same.symm) (orderly.wrote ends)
  | @ask task a b next other place fits akin goesOn ih =>
    have both : ∀ ending middle there, task.run fuel a = .ended ending middle → task.run fuel b = .ended ending there →
        kin.Endings place task ending → kin.machine middle there →
        kin.Outcomes results causes ((Plan.ask task a next).run (Task.run fuel)) ((Plan.ask task b other).run (Task.run fuel)) := by
      intro ending middle there ends alike allowed still
      rw [Plan.run_ended next ends, Plan.run_ended other alike]
      exact ih ending middle there allowed still (first.2.2 ending middle ⟨fuel, ends⟩) (second.2.2 ending there ⟨fuel, alike⟩)
    have inner := inside place task a b fits akin
    generalize ends : task.run fuel a = outcome, alike : task.run fuel b = another at inner
    cases inner with
    | @value result middle there allowed still => exact both (.ok result) middle there ends alike allowed still
    | @interrupted cause middle there allowed still => exact both (.error cause) middle there ends alike allowed still
    | outOfFuel =>
      rw [Plan.run_outOfFuel next ends, Plan.run_outOfFuel other alike]
      exact .outOfFuel
    | @cutOff paren middle _ allowed wrote =>
      -- The overflow ends the first run here; the second one only writes more.
      have overflow : task.run fuel a = .ended (.error (.failure ⟨paren, .stackOverflow⟩)) middle := ends
      obtain ⟨stopped, passed, same⟩ := first.2.1 ⟨paren, .stackOverflow⟩ middle
      rw [Plan.run_ended next overflow, passed]
      refine .cutOff allowed fun last ended => ?_
      rcases another.outOfFuel_or_ended with stops | ⟨ending, there, goes⟩
      · rw [Plan.run_outOfFuel other (alike.trans stops)] at ended
        cases ended
      · have written := wrote there (by rw [goes, Outcome.after?_ended])
        rw [Plan.run_ended other (alike.trans goes)] at ended
        have rest := (second.2.2 ending there ⟨fuel, alike.trans goes⟩).wrote ended
        exact wrote_allows.trans (.of_output_eq same.symm) (wrote_allows.trans written rest)

end
end Kinship

/-- The computation looks at the outside world only, ends, and yields results of one sort. It leaves the host with no
errors that it could not hand over before. -/
def Outward {α : Type} (yields : α → Prop) (run : Run α) : Prop :=
  ∀ machine : Machine, ∃ ending input output ticks, (∀ result, ending = .ok result → yields result) ∧
    (∀ error, ({ machine with input, output } : Machine).HandsOver error → machine.HandsOver error) ∧
    ∀ heap maxDepth, run { machine with heap, maxDepth } = .ended ending { machine with heap, maxDepth, input, output, ticks }

section

variable {α β : Type} {yields : α → Prop} {shows : β → Prop}

private theorem outward_interrupt (cause : Interrupt) : Outward yields (Run.interrupt cause) := by
  intro machine
  refine ⟨.error cause, machine.input, machine.output, machine.ticks, ?_, fun _ handed => handed, fun _ _ => rfl⟩
  rintro _ ⟨⟩

private theorem outward_pure {result : α} (allowed : yields result) : Outward yields (pure result) := by
  intro machine
  refine ⟨.ok result, machine.input, machine.output, machine.ticks, ?_, fun _ handed => handed, fun _ _ => rfl⟩
  rintro _ ⟨⟩
  exact allowed

private theorem outward_bind {first : Run α} {next : α → Run β} (begins : Outward yields first)
    (goesOn : ∀ result, yields result → Outward shows (next result)) : Outward shows (first >>= next) := by
  intro machine
  obtain ⟨ending, input, output, ticks, allowed, milder, ends⟩ := begins machine
  have both : ∀ heap maxDepth, (first >>= next) { machine with heap, maxDepth } =
      (Outcome.ended ending { machine with heap, maxDepth, input, output, ticks }).fold next .interrupted := by
    intro heap maxDepth
    rw [← ends heap maxDepth]
    change andThen first next _ = _
    unfold andThen
    cases first { machine with heap, maxDepth } <;> rfl
  cases ending with
  | error cause => exact ⟨.error cause, input, output, ticks, fun _ impossible => (by cases impossible), milder, both⟩
  | ok result =>
    obtain ⟨last, input', output', ticks', shown, still, goes⟩ :=
      goesOn result (allowed result rfl) { machine with input, output, ticks }
    refine ⟨last, input', output', ticks', shown, fun error handed => milder error (still error handed), ?_⟩
    exact fun heap maxDepth => (both heap maxDepth).trans (goes heap maxDepth)

private theorem outward_write (text : Bytes) : Outward (fun _ => True) (write text) := by
  intro machine
  have milder : ∀ error, ({ machine with output := machine.output.refused } : Machine).HandsOver error →
      machine.HandsOver error := fun _ handed => handed.imp_right Sink.stores_of_behind
  cases refuses : machine.output.sink.error? with
  | some error =>
    refine ⟨.error error.interrupt, machine.input, machine.output.refused, machine.ticks, by simp, milder, ?_⟩
    intro heap maxDepth
    simp only [write, refuses]
    rfl
  | none =>
    refine ⟨.ok (), machine.input, machine.output.add (.printed text), machine.ticks, by simp, milder, ?_⟩
    intro heap maxDepth
    simp only [write, refuses]
    rfl

private theorem outward_readLine : Outward Value.IsConstant readLine := by
  intro machine
  cases reads : machine.input.readLine with
  | mk read input =>
    have milder : ∀ error, ({ machine with input } : Machine).HandsOver error → machine.HandsOver error :=
      fun error handed => handed.imp_left ((Input.readLine_stores reads).1 error)
    cases read with
    | broken error =>
      refine ⟨.error error.interrupt, input, machine.output, machine.ticks, by simp, milder, ?_⟩
      intro heap maxDepth
      simp only [readLine, reads]
      rfl
    | line text | last text =>
      refine ⟨.ok _, input, machine.output, machine.ticks, ?_, milder, fun heap maxDepth => by simp only [readLine, reads]; rfl⟩
      rintro _ ⟨⟩
      exact LineRead.toValue_constant _

private theorem outward_readClock : Outward Value.IsConstant readClock := by
  intro machine
  refine ⟨.ok (.number (machine.clock machine.ticks)), machine.input, machine.output, machine.ticks + 1, ?_,
    fun _ handed => handed, fun _ _ => rfl⟩
  rintro _ ⟨⟩
  exact .number _

end

/-- A built-in function that applies no other one deals with the outside world only. -/
theorem native_outward (builtin : Native) (arguments : List Value)
    (direct : ∀ value argument, builtin.primitive = .apply → arguments = [value, argument] → False) :
    Outward Value.IsConstant (invoke 1 (.native builtin) arguments) := by
  have nothing : Outward Value.IsConstant (Run.interrupt (.host .missingArgument)) := outward_interrupt _
  obtain ⟨id, name, arity, primitive⟩ := builtin
  cases primitive with
  | clock => exact outward_readClock
  | inert => exact outward_pure .null
  | fail | foreign index => exact outward_interrupt _
  | raise =>
    rcases arguments with _ | ⟨value, _ | ⟨_, _⟩⟩
    · exact nothing
    · exact outward_interrupt _
    · exact nothing
  | apply =>
    rcases arguments with _ | ⟨value, _ | ⟨argument, _ | ⟨_, _⟩⟩⟩
    · exact nothing
    · exact nothing
    · exact (direct value argument rfl rfl).elim
    · exact nothing
  | print =>
    rcases arguments with _ | ⟨value, _ | ⟨_, _⟩⟩
    · exact nothing
    · exact outward_bind (outward_write _) fun _ _ => outward_pure .null
    · exact nothing
  | input =>
    rcases arguments with _ | ⟨prompt, _ | ⟨_, _⟩⟩
    · exact nothing
    · exact outward_bind (outward_write _) fun _ _ => outward_readLine
    · exact nothing

namespace Kinship.Lawful

section

variable {kin : Kinship} (lawful : kin.Lawful) {a b : Machine}
include lawful

private theorem form (akin : kin.machine a b) : ∃ heap maxDepth, b = { a with heap, maxDepth } :=
  ⟨b.heap, b.maxDepth, lawful.same akin⟩

private theorem recorded (akin : kin.machine a b) (event : TraceEvent) : kin.machine (a.recorded event) (b.recorded event) := by
  obtain ⟨heap, maxDepth, rfl⟩ := lawful.form akin
  unfold Machine.recorded
  dsimp only
  split
  · exact lawful.outside a.input a.output (a.trace.push event) a.nextId a.ticks akin fun _ => lawful.handsOver akin
  · exact akin

private theorem outward {α : Type} {yields results : α → Prop} {causes : Interrupt → Prop} {run : Run α}
    (outward : Outward yields run) (akin : kin.machine a b) (allowed : ∀ result, yields result → results result)
    (stops : ∀ cause after, run a = .interrupted cause after → causes cause) :
    kin.Outcomes results causes (run a) (run b) := by
  obtain ⟨heap, maxDepth, rfl⟩ := lawful.form akin
  obtain ⟨ending, input, output, ticks, yielded, milder, ends⟩ := outward a
  have first := ends a.heap a.maxDepth
  have still := lawful.outside input output a.trace a.nextId ticks akin fun error handed =>
    lawful.handsOver akin (milder error handed)
  cases ending with
  | ok result =>
    rw [first, ends heap maxDepth]
    exact .value (allowed result (yielded result rfl)) still
  | error cause =>
    have stop := stops cause _ first
    rw [first, ends heap maxDepth]
    exact .interrupted stop still

private theorem lookup_outcomes (akin : kin.machine a b) {token : Token} (known : kin.expr (.name token)) :
    kin.Outcomes kin.value kin.fault (Run.lookup token a) (Run.lookup token b) := by
  unfold Run.lookup
  rw [lawful.lookup token akin]
  cases found : a.heap.get a.frame token a.search with
  | ok value => exact .value (lawful.found akin found) akin
  | error error =>
    obtain ⟨rfl, ofName⟩ := Heap.get_error found
    exact .interrupted (lawful.name known ofName) akin

private theorem assign_outcomes (akin : kin.machine a b) {target : Token} {expr : Expr} {value : Value}
    (known : kin.expr (.assign target expr)) (allowed : kin.value value) :
    kin.Outcomes kin.value kin.fault ((do Run.assign target value; return value : Run Value) a)
      ((do Run.assign target value; return value : Run Value) b) := by
  change kin.Outcomes _ _ (andThen (Run.assign target value) _ a) (andThen (Run.assign target value) _ b)
  unfold andThen Run.assign
  rw [lawful.owner target akin]
  cases found : a.heap.owner a.frame target a.search with
  | ok owner => exact .value allowed (lawful.assign akin found allowed)
  | error error =>
    obtain ⟨rfl, ofName⟩ := Heap.owner_error found
    exact .interrupted (lawful.target known ofName) akin

private theorem operation_outcomes (akin : kin.machine a b) {result : Except RuntimeError Value}
    (yields : ∀ value, result = .ok value → value.IsConstant)
    (fails : ∀ error, result = .error error → kin.fault (.failure error)) :
    kin.Outcomes kin.value kin.fault (ofExcept result a) (ofExcept result b) := by
  cases result with
  | ok value => exact .value (lawful.constant (yields value rfl)) akin
  | error error => exact .interrupted (fails error rfl) akin

private theorem callPlan_akin (akin : kin.machine a b) {callee : Expr} {paren : Token} {arguments : List Expr} {called : Value}
    {values : List Value} (known : kin.expr (.call callee paren arguments)) (allowed : kin.value called)
    (arguable : ∀ value ∈ values, kin.value value) :
    kin.Plans kin.value kin.fault (callPlan called values paren a) (callPlan called values paren b) := by
  cases found : called.callable? with
  | none =>
    simp only [callPlan, found]
    exact .interrupted (lawful.call _ known (.inl rfl)) akin
  | some callable =>
    obtain rfl : called = .callable callable := by
      cases called <;> cases found
      rfl
    by_cases fits : callable.arity = values.length
    · by_cases room : a.depth < a.maxDepth
      · have enters := lawful.enter akin room
        have roomy := lawful.room akin room
        simp only [callPlan, found, if_pos fits, if_pos room, if_pos roomy]
        obtain ⟨heap, maxDepth, rfl⟩ := lawful.form akin
        refine .ask .top ⟨allowed, arguable, fits⟩ (lawful.recorded enters _) fun ending first second ends still => ?_
        cases ending with
        | ok result => exact .value ends (lawful.leave (lawful.recorded still _))
        | error cause =>
          refine .interrupted ?_ (lawful.leave still)
          change ite _ _ _ at ends
          cases native : callable.isNative with
          | true =>
            rw [native] at ends
            exact lawful.shown known ends
          | false =>
            rw [native] at ends
            exact ends
      · by_cases roomy : b.depth < b.maxDepth
        · have orderly : (callPlan (.callable callable) values paren b).Orderly (fun _ => True) b :=
            callPlan_orderly b _ values paren fun _ _ _ _ => trivial
          simp only [callPlan, found, if_pos fits, if_neg room, if_pos roomy] at orderly ⊢
          have written : a.output = b.output := (congrArg Machine.output (lawful.same akin)).symm
          exact .cutOff (lawful.full akin room roomy) written orderly
        · simp only [callPlan, found, if_pos fits, if_neg room, if_neg roomy]
          exact .interrupted (lawful.call _ known (.inr (.inl rfl))) akin
    · simp only [callPlan, found, if_neg fits]
      exact .interrupted (lawful.call _ known (.inr (.inr ⟨_, _, rfl⟩))) akin

private theorem evaluatePlan_akin (akin : kin.machine a b) {expr : Expr} (known : kin.expr expr) :
    kin.Plans kin.value kin.fault (evaluatePlan a expr) (evaluatePlan b expr) := by
  have part : ∀ part ∈ expr.parts, kin.Fits .top (.evaluate part) := fun part inside => lawful.parts known part inside
  have same : ∀ cause, kin.Causes .top (.evaluate expr) cause → kin.fault cause := fun _ fault => fault
  cases expr with
  | literal value pos => exact .value (lawful.constant value.toValue_constant) akin
  | name token => exact .done (lawful.lookup_outcomes akin known)
  | assign target value =>
    refine .first (part value (by simp [Expr.parts])) akin same fun result _ _ allowed still => ?_
    exact .done (lawful.assign_outcomes still known allowed)
  | ternary condition one two =>
    refine .first (part condition (by simp [Expr.parts])) akin same fun decision _ _ _ still => ?_
    split
    · exact .last (part one (by simp [Expr.parts])) still same fun _ allowed => allowed
    · exact .last (part two (by simp [Expr.parts])) still same fun _ allowed => allowed
  | logical left operator right =>
    refine .first (part left (by simp [Expr.parts])) akin same fun result _ _ allowed still => ?_
    split
    · exact .value allowed still
    · exact .last (part right (by simp [Expr.parts])) still same fun _ allowed => allowed
  | binary left operator right =>
    refine .first (part left (by simp [Expr.parts])) akin same fun one _ _ _ still => ?_
    refine .first (part right (by simp [Expr.parts])) still same fun two _ _ _ still => .done ?_
    exact lawful.operation_outcomes still (fun _ => Operator.binary_constant) fun _ => lawful.operands known
  | unary operator operand =>
    refine .first (part operand (by simp [Expr.parts])) akin same fun result _ _ _ still => .done ?_
    exact lawful.operation_outcomes still (fun _ => Operator.unary_constant) fun _ => lawful.operand known
  | group inner => exact .last (part inner (by simp [Expr.parts])) akin same fun _ allowed => allowed
  | call callee paren arguments =>
    refine .first (part callee (by simp [Expr.parts])) akin same fun called _ _ allowed still => ?_
    have fits : kin.Fits .top (.evaluateAll arguments) := fun argument inside => part argument (.tail _ inside)
    refine .first fits still same fun values _ _ arguable still => ?_
    exact lawful.callPlan_akin still known allowed arguable
  | hole => exact .interrupted (lawful.missingExpression known) akin

omit lawful in
private theorem evaluateAllPlan_akin (akin : kin.machine a b) {exprs : List Expr} (known : ∀ expr ∈ exprs, kin.expr expr) :
    kin.Plans (fun values => ∀ value ∈ values, kin.value value) kin.fault (evaluateAllPlan a exprs)
      (evaluateAllPlan b exprs) := by
  cases exprs with
  | nil => exact .value (by simp) akin
  | cons expr rest =>
    have head : kin.Fits .top (.evaluate expr) := known expr List.mem_cons_self
    have others : kin.Fits .top (.evaluateAll rest) := fun expr inside => known expr (.tail _ inside)
    refine .first head akin (fun _ fault => fault) fun value _ _ allowed still => ?_
    refine .first others still (fun _ fault => fault) fun values _ _ arguable still => .value ?_ still
    exact List.forall_mem_cons.mpr ⟨allowed, arguable⟩

/-- The end of a function's body is that of its call. -/
private theorem bodyEnded_outcomes (akin : kin.machine a b) {ending : Except Interrupt Unit}
    (ends : ∀ cause, ending = .error cause → kin.leaves .body cause) :
    kin.Outcomes kin.value kin.fault (bodyEnded ending a) (bodyEnded ending b) := by
  cases ending with
  | ok _ => exact .value (lawful.constant .null) akin
  | error cause =>
    have leaves := ends cause rfl
    cases cause with
    | returnValue keyword value => exact .value (lawful.returned leaves) akin
    | breakLoop keyword | continueLoop keyword | failure error | host fault =>
      exact .interrupted (lawful.escaped leaves (by rintro _ _ ⟨⟩)) akin

private theorem invokePlan_akin (akin : kin.machine a b) {callable : Callable} {arguments : List Value}
    (fits : kin.Fits .top (.invoke callable arguments)) :
    kin.Plans kin.value (kin.Causes .top (.invoke callable arguments)) (invokePlan a callable arguments)
      (invokePlan b callable arguments) := by
  obtain ⟨known, arguable, arity⟩ := fits
  cases callable with
  | function closure =>
    have enough : closure.parameters.length = arguments.length := Int.ofNat_inj.mp arity
    simp only [invokePlan, if_pos enough]
    have body : kin.Fits .body (.executeAll closure.body) := lawful.body known
    have opens : kin.machine (a.opened closure.frame (closure.parameters.zip arguments))
        (b.opened closure.frame (closure.parameters.zip arguments)) :=
      lawful.opened akin (.inr ⟨closure, known, rfl⟩) fun binding bound => arguable _ (List.of_mem_zip bound).2
    refine .ask .body body opens fun ending first second ends still => .done ?_
    refine lawful.bodyEnded_outcomes (lawful.back akin still) ?_
    rintro cause rfl
    exact ends
  | native builtin =>
    unfold invokePlan
    dsimp only
    split
    next value argument applies =>
      cases found : value.callable? with
      | none => exact .value (lawful.constant .null) akin
      | some callable =>
        obtain rfl : value = .callable callable := by
          cases value <;> cases found
          rfl
        dsimp only
        split
        next single =>
          have inner : kin.Fits .top (.invoke callable [argument]) :=
            ⟨arguable _ List.mem_cons_self, fun value inside => arguable value (.tail _ inside), single⟩
          refine .last inner akin (fun cause raised => ?_) fun _ allowed => allowed
          change ite _ _ _ at raised
          split at raised
          · exact raised
          · exact lawful.passed raised
        next => exact .value (lawful.constant .null) akin
    next arguments _ _ others =>
      refine .done (lawful.outward (native_outward builtin arguments others) akin (fun _ => lawful.constant) ?_)
      intro cause after stops
      exact lawful.native known arity (fun _ => lawful.handsOver akin) stops

variable {place : Place}

private theorem turn_akin (akin : kin.machine a b) {stmt : Stmt} (known : kin.stmt place.inLoop stmt)
    {next other : Machine → Plan Unit}
    (goesOn : ∀ first second, kin.machine first second →
      kin.Plans (fun _ => True) (kin.leaves place) (next first) (other second)) :
    kin.Plans (fun _ => True) (kin.leaves place) (.ask (.execute stmt) a (turnEnded next))
      (.ask (.execute stmt) b (turnEnded other)) := by
  refine .ask place.inLoop known akin fun ending first second ends still => ?_
  cases ending with
  | ok _ => exact goesOn first second still
  | error cause =>
    cases cause with
    | continueLoop keyword => exact goesOn first second still
    | breakLoop keyword => exact .value trivial still
    | returnValue keyword value | failure error | host fault =>
      exact .interrupted (lawful.unlooped ends (by rintro _ ⟨⟩) (by rintro _ ⟨⟩)) still

private theorem repeatWhilePlan_akin (akin : kin.machine a b) {condition : Expr} {body : Stmt} {post : Option Stmt}
    (fits : kin.Fits place (.repeatWhile condition body post)) :
    kin.Plans (fun _ => True) (kin.leaves place) (repeatWhilePlan a condition body post)
      (repeatWhilePlan b condition body post) := by
  have again : ∀ first second, kin.machine first second → kin.Plans (fun _ => True) (kin.leaves place)
      (.last (.repeatWhile condition body post) first) (.last (.repeatWhile condition body post) second) :=
    fun _ _ still => .last fits still (fun _ leaves => leaves) fun _ _ => trivial
  obtain ⟨test, inside, after⟩ := fits
  have decides : kin.Fits place (.evaluate condition) := test
  refine .first decides akin (fun _ => lawful.thrown) fun decision _ _ _ still => ?_
  split
  · refine lawful.turn_akin still inside fun _ _ still => ?_
    cases post with
    | none => exact again _ _ still
    | some post => exact lawful.turn_akin still (after post rfl) again
  · exact .value trivial still

private theorem executePlan_akin (akin : kin.machine a b) {stmt : Stmt} (known : kin.stmt place stmt) :
    kin.Plans (fun _ => True) (kin.leaves place) (executePlan a stmt) (executePlan b stmt) := by
  have expr : ∀ expr ∈ stmt.exprs, kin.Fits place (.evaluate expr) := fun expr inside => lawful.exprs known expr inside
  have part : ∀ place' part, (place', part) ∈ stmt.parts place → kin.Fits place' (.execute part) :=
    fun _ _ inside => lawful.stmts known _ inside
  have thrown : ∀ cause, kin.fault cause → kin.leaves place cause := fun _ => lawful.thrown
  cases stmt with
  | expression value =>
    exact .first (expr value (by simp [Stmt.exprs])) akin thrown fun _ _ _ _ still => .value trivial still
  | print value =>
    refine .first (expr value (by simp [Stmt.exprs])) akin thrown fun result _ _ _ still => .done ?_
    refine lawful.outward (outward_write _) still (fun _ _ => trivial) fun cause after stops => ?_
    obtain ⟨error, handed, rfl⟩ := write_interrupted stops
    exact lawful.refused known (lawful.handsOver still handed)
  | declare name initial =>
    cases initial with
    | none => exact .value trivial (lawful.define name.lexeme akin (.inr rfl))
    | some initial =>
      refine .first (expr initial (by simp [Stmt.exprs])) akin thrown fun value _ _ allowed still => ?_
      exact .value trivial (lawful.define name.lexeme still (.inl allowed))
  | block body pos =>
    have all : kin.Fits place (.executeAll body) := fun stmt inside => part place stmt (by simpa [Stmt.parts] using inside)
    have opens : kin.machine (a.opened a.frame []) (b.opened a.frame []) := lawful.opened akin (.inl rfl) (by simp)
    refine .ask place all ?_ fun ending first second ends still => ?_
    · obtain ⟨heap, maxDepth, rfl⟩ := lawful.form akin
      exact opens
    · cases ending with
      | ok _ => exact .value trivial (lawful.back akin still)
      | error cause => exact .interrupted ends (lawful.back akin still)
  | branch condition consequence alternative pos =>
    refine .first (expr condition (by simp [Stmt.exprs])) akin thrown fun decision _ _ _ still => ?_
    split
    · exact .last (part place consequence (by simp [Stmt.parts])) still (fun _ leaves => leaves) fun _ _ => trivial
    · cases alternative with
      | none => exact .value trivial still
      | some alternative =>
        exact .last (part place alternative (by simp [Stmt.parts])) still (fun _ leaves => leaves) fun _ _ => trivial
  | loop condition body post pos =>
    have fits : kin.Fits place (.repeatWhile condition body post) :=
      ⟨expr condition (by simp [Stmt.exprs]), part _ body (by simp [Stmt.parts]),
        fun stmt after => part _ stmt (by simp_all [Stmt.parts])⟩
    exact .last fits akin (fun _ leaves => leaves) fun _ _ => trivial
  | breakLoop keyword => exact .interrupted (lawful.breakLoop known) akin
  | continueLoop keyword => exact .interrupted (lawful.continueLoop known) akin
  | function name parameters body =>
    have counted := lawful.outside a.input a.output a.trace (a.nextId + 1) a.ticks akin fun _ => lawful.handsOver akin
    have declared := lawful.define name.lexeme counted (.inl (lawful.closure a.nextId akin known))
    obtain ⟨heap, maxDepth, rfl⟩ := lawful.form akin
    exact .value trivial declared
  | returnValue keyword result =>
    cases result with
    | none => exact .interrupted (lawful.returnValue known (lawful.constant .null)) akin
    | some result =>
      refine .first (expr result (by simp [Stmt.exprs])) akin thrown fun value _ _ allowed still => ?_
      exact .interrupted (lawful.returnValue known allowed) still
  | hole => exact .interrupted (lawful.missingStatement known) akin

omit lawful in
private theorem executeAllPlan_akin (akin : kin.machine a b) {stmts : List Stmt} (known : ∀ stmt ∈ stmts, kin.stmt place stmt) :
    kin.Plans (fun _ => True) (kin.leaves place) (executeAllPlan a stmts) (executeAllPlan b stmts) := by
  cases stmts with
  | nil => exact .value trivial akin
  | cons stmt rest =>
    have head : kin.Fits place (.execute stmt) := known stmt List.mem_cons_self
    have others : kin.Fits place (.executeAll rest) := fun stmt inside => known stmt (.tail _ inside)
    refine .first head akin (fun _ leaves => leaves) fun _ _ _ _ still => ?_
    exact .last others still (fun _ leaves => leaves) fun _ _ => trivial

/-- Akin machines make the same plan. -/
private theorem plan_akin (akin : kin.machine a b) {task : Task} (fits : kin.Fits place task) :
    kin.Plans (kin.Results task) (kin.Causes place task) (task.plan a) (task.plan b) := by
  cases task with
  | evaluate expr => exact lawful.evaluatePlan_akin akin fits
  | evaluateAll exprs => exact evaluateAllPlan_akin akin fits
  | invoke callable arguments => exact lawful.invokePlan_akin akin fits
  | execute stmt => exact lawful.executePlan_akin akin fits
  | executeAll stmts => exact executeAllPlan_akin akin fits
  | repeatWhile condition body post => exact lawful.repeatWhilePlan_akin akin fits

end

section

variable {kin : Kinship} (lawful : kin.Lawful) {place : Place} {task : Task} {a b : Machine}
include lawful

/-- On akin machines a task has the same outcome. -/
theorem runs (fuel : Nat) (fits : kin.Fits place task) (akin : kin.machine a b) :
    kin.Outcomes (kin.Results task) (kin.Causes place task) (task.run fuel a) (task.run fuel b) := by
  induction fuel generalizing place task a b with
  | zero =>
    rw [Task.run_zero, Task.run_zero]
    exact .outOfFuel
  | succ fuel ih =>
    rw [Task.run_succ, Task.run_succ]
    exact Plans.run (lawful.plan_akin akin fits) (fun _ _ _ _ => ih) (task.plan_orderly a) (task.plan_orderly b)

/-- Whatever a task yields is as the kinship says. -/
theorem ends {result : task.Result} {after : Machine} (ends : task.Ends a (.ok result) after) (fits : kin.Fits place task)
    (akin : kin.machine a b) : kin.Results task result ∧ ∃ other, kin.machine after other := by
  obtain ⟨fuel, ended⟩ := ends
  have outcomes := lawful.runs fuel fits akin
  rw [ended] at outcomes
  generalize task.run fuel b = other at outcomes
  cases outcomes with
  | value allowed still => exact ⟨allowed, _, still⟩

/-- Whatever interrupts a task is as the kinship says, when no run may be cut off. -/
theorem stops (whole : ¬kin.cut) {fuel : Nat} {cause : Interrupt} {after : Machine}
    (stops : task.run fuel a = .interrupted cause after) (fits : kin.Fits place task) (akin : kin.machine a b) :
    kin.Causes place task cause ∧ ∃ other, kin.machine after other := by
  have outcomes := lawful.runs fuel fits akin
  rw [stops] at outcomes
  generalize task.run fuel b = other at outcomes
  cases outcomes with
  | interrupted allowed still => exact ⟨allowed, _, still⟩
  | cutOff cut => exact absurd cut whole

private theorem asked {α : Type} {results : α → Prop} {causes : Interrupt → Prop} {plan other : Plan α}
    (akin : kin.Plans results causes plan other) {overflows : Token → Prop} {before point : Machine} {asked : Task}
    (orderly : plan.Orderly overflows before) (asks : plan.Asks asked point) :
    ∃ place there, kin.Fits place asked ∧ kin.machine point there := by
  induction asks generalizing other overflows before with
  | here task machine next =>
    cases akin with
    | ask place fits akin goesOn => exact ⟨place, _, fits, akin⟩
  | @later task machine after next ending asked point ends rest ih =>
    obtain ⟨fuel, ended⟩ := ends
    cases akin with
    | @ask _ _ b _ other place fits akin goesOn =>
      have inner := lawful.runs fuel fits akin
      rw [ended] at inner
      have goes := orderly.2.2 ending after ⟨fuel, ended⟩
      generalize task.run fuel b = another at inner
      cases ending with
      | ok result =>
        cases inner with
        | value allowed still => exact ih (goesOn (.ok result) _ _ allowed still) goes
      | error cause =>
        cases inner with
        | interrupted allowed still => exact ih (goesOn (.error cause) _ _ allowed still) goes
        | @cutOff paren =>
          obtain ⟨stopped, passed, _⟩ := orderly.2.1 ⟨paren, .stackOverflow⟩ after
          rw [passed] at rest
          cases rest

/-- Whatever the run comes to is as the kinship says. -/
theorem reached {reached : Task} {there : Machine} (reaches : Reaches task a reached there) (fits : kin.Fits place task)
    (akin : kin.machine a b) : ∃ place other, kin.Fits place reached ∧ kin.machine there other := by
  induction reaches generalizing place b with
  | start task machine => exact ⟨place, b, fits, akin⟩
  | @ask task asked reached machine point there asks _ ih =>
    obtain ⟨_, _, inside, still⟩ := lawful.asked (lawful.plan_akin akin fits) (task.plan_orderly machine) asks
    exact ih inside still

end
end Kinship.Lawful
end Machine
end Treewalk
