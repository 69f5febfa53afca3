import Treewalk.Proofs.HostErrors
import Treewalk.Proofs.RunPoints

/-! How failures travel. A failure of a task that is handed on ends the task that handed it on, in the
same way and without another write; so a failure at any point of a run is how the run ends. A stack
overflow comes from nowhere but a call that finds no room. -/

namespace Treewalk

theorem Outcome.after?_ended {α : Type} (ending : Except Interrupt α) (machine : Machine) :
    (Outcome.ended ending machine).after? = some machine := by
  cases ending <;> rfl

def Outcome.error? {α : Type} : Outcome α → Option RuntimeError
  | interrupted (.failure error) _ => some error
  | _ => none

theorem Outcome.of_error? {α : Type} {outcome : Outcome α} {error : RuntimeError} (fails : outcome.error? = some error) :
    ∃ after, outcome = interrupted (.failure error) after := by
  unfold error? at fails
  split at fails <;> cases fails
  exact ⟨_, rfl⟩

def Outcome.interrupt? {α : Type} : Outcome α → Option Interrupt
  | interrupted cause _ => some cause
  | value _ _ | outOfFuel => none

theorem Outcome.of_interrupt? {α : Type} {outcome : Outcome α} {cause : Interrupt} (stops : outcome.interrupt? = some cause) :
    ∃ after, outcome = interrupted cause after := by
  cases outcome <;> cases stops
  exact ⟨_, rfl⟩

inductive Cause.OfName : Cause → Prop where
  | undefined (guess : Option Bytes) : OfName (.undefinedVariable guess)
  | uninitialized : OfName .uninitializedVariable

inductive Cause.OfOperands : Cause → Prop where
  | mixed : OfOperands .mixedOperands
  | notNumber : OfOperands .notNumber
  | zero : OfOperands .divisionByZero
  | fractional : OfOperands .fractionalRepetition
  | oversized : OfOperands .oversizedRepetition

theorem Heap.get_error {heap : Heap} {frame : FrameId} {name : Token} {search : FuzzySearch} {error : RuntimeError}
    (fails : heap.get frame name search = .error error) : error.token = name ∧ error.cause.OfName := by
  unfold get at fails
  split at fails
  · cases fails
    exact ⟨rfl, .undefined _⟩
  · cases fails
    exact ⟨rfl, .uninitialized⟩
  · cases fails

theorem Heap.owner_error {heap : Heap} {frame : FrameId} {name : Token} {search : FuzzySearch} {error : RuntimeError}
    (fails : heap.owner frame name search = .error error) : error.token = name ∧ error.cause.OfName := by
  unfold owner at fails
  split at fails
  · cases fails
    exact ⟨rfl, .undefined _⟩
  · cases fails

namespace Operator

def binaryKinds : List TokenKind :=
  [.equalEqual, .bangEqual, .plus, .star, .minus, .slash, .greater, .greaterEqual, .less, .lessEqual]

def unaryKinds : List TokenKind :=
  [.minus, .bang]

private theorem repetition_error {operator : Token} {text : Bytes} {count : Float} {error : RuntimeError}
    (fails : repetition operator text count = .error error) : error.token = operator ∧ error.cause.OfOperands := by
  unfold repetition at fails
  split at fails
  · cases fails
    exact ⟨rfl, .fractional⟩
  · split at fails
    · cases fails
    · cases fails
      exact ⟨rfl, .oversized⟩
  · split at fails
    · cases fails
      exact ⟨rfl, .fractional⟩
    · split at fails
      · cases fails
      · split at fails
        · cases fails
          exact ⟨rfl, .oversized⟩
        · cases fails

private theorem arithmetic_error {operator : Token} {left right : Float} {error : RuntimeError}
    (fails : arithmetic operator left right = .error error) :
    error.token = operator ∧ (error.cause.OfOperands ∨ error.cause = .unknownOperator ∧
      operator.kind ∉ [.minus, .slash, .greater, .greaterEqual, .less, .lessEqual]) := by
  unfold arithmetic at fails
  split at fails
  case h_2 =>
    split at fails
    · cases fails
      exact ⟨rfl, .inl .zero⟩
    · cases fails
  case h_7 =>
    cases fails
    exact ⟨rfl, .inr ⟨rfl, by simp_all⟩⟩
  all_goals cases fails

private theorem product_error {operator : Token} {left right : Value} {error : RuntimeError}
    (fails : product operator left right = .error error) : error.token = operator ∧ error.cause.OfOperands := by
  unfold product at fails
  split at fails
  · exact repetition_error fails
  · exact repetition_error fails
  · cases fails
  · cases fails
    exact ⟨rfl, .notNumber⟩

theorem binary_error {operator : Token} {left right : Value} {error : RuntimeError}
    (fails : binary operator left right = .error error) :
    error.token = operator ∧
      (error.cause.OfOperands ∨ error.cause = .unknownOperator ∧ operator.kind ∉ binaryKinds) := by
  unfold binary at fails
  split at fails
  · cases fails
  · cases fails
  · unfold sum at fails
    split at fails <;> cases fails
    exact ⟨rfl, .inl .mixed⟩
  · exact (product_error fails).imp_right .inl
  · split at fails
    · refine (arithmetic_error fails).imp_right (.imp_right fun unknown => ⟨unknown.1, ?_⟩)
      have others := unknown.2
      simp_all [binaryKinds]
    · cases fails
      exact ⟨rfl, .inl .notNumber⟩

theorem unary_error {operator : Token} {operand : Value} {error : RuntimeError}
    (fails : unary operator operand = .error error) :
    error.token = operator ∧
      (error.cause.OfOperands ∨ error.cause = .unknownUnaryOperator ∧ operator.kind ∉ unaryKinds) := by
  unfold unary at fails
  split at fails
  · split at fails <;> cases fails
    exact ⟨rfl, .inl .notNumber⟩
  · cases fails
  · cases fails
    refine ⟨rfl, .inr ⟨rfl, ?_⟩⟩
    simp_all [unaryKinds]

end Operator

namespace Machine
open Run

theorem bind_interrupted {α β : Type} {first : Run α} {next : α → Run β} {machine after : Machine} {cause : Interrupt}
    (stops : (first >>= next) machine = .interrupted cause after) :
    first machine = .interrupted cause after ∨
      ∃ result middle, first machine = .value result middle ∧ next result middle = .interrupted cause after := by
  change andThen first next machine = _ at stops
  unfold andThen at stops
  cases outcome : first machine with
  | value result middle =>
    rw [outcome] at stops
    exact .inr ⟨result, middle, rfl, stops⟩
  | interrupted other middle =>
    rw [outcome] at stops
    cases stops
    exact .inl rfl
  | outOfFuel =>
    rw [outcome] at stops
    cases stops

theorem lookup_interrupted {name : Token} {machine after : Machine} {cause : Interrupt}
    (stops : lookup name machine = .interrupted cause after) :
    ∃ error, machine.heap.get machine.frame name machine.search = .error error ∧ cause = .failure error := by
  unfold lookup at stops
  split at stops <;> cases stops
  exact ⟨_, ‹_›, rfl⟩

theorem assign_interrupted {name : Token} {value : Value} {machine after : Machine} {cause : Interrupt}
    (stops : assign name value machine = .interrupted cause after) :
    ∃ error, machine.heap.owner machine.frame name machine.search = .error error ∧ cause = .failure error := by
  unfold assign at stops
  split at stops <;> cases stops
  exact ⟨_, ‹_›, rfl⟩

theorem ofExcept_interrupted {α : Type} {result : Except RuntimeError α} {machine after : Machine} {cause : Interrupt}
    (stops : ofExcept result machine = .interrupted cause after) : ∃ error, result = .error error ∧ cause = .failure error := by
  cases result <;> cases stops
  exact ⟨_, rfl, rfl⟩

/-- A built-in function fails with a fault of its own, with an error that the host hands over, or with the error that it
is there to raise. -/
theorem native_interrupt {builtin : Native} {arguments : List Value} {machine after : Machine} {cause : Interrupt}
    (fails : invoke 1 (.native builtin) arguments machine = .interrupted cause after) :
    (∃ fault : HostFault, fault.held? = none ∧ cause = .host fault) ∨
      (∃ error, machine.HandsOver error ∧ cause = error.interrupt) ∨
      builtin.primitive = .raise ∧ ∃ text, cause = .failure ⟨raisedToken, .custom text []⟩ := by
  obtain ⟨id, name, arity, primitive⟩ := builtin
  cases primitive with
  | clock | inert => cases fails
  | fail | foreign index =>
    cases fails
    exact .inl ⟨_, rfl, rfl⟩
  | raise =>
    rcases arguments with _ | ⟨value, _ | ⟨_, _⟩⟩ <;> cases fails
    · exact .inl ⟨_, rfl, rfl⟩
    · exact .inr (.inr ⟨rfl, _, rfl⟩)
    · exact .inl ⟨_, rfl, rfl⟩
  | print =>
    rcases arguments with _ | ⟨value, _ | ⟨_, _⟩⟩
    case cons.nil =>
      rcases bind_interrupted fails with refused | ⟨_, _, _, impossible⟩
      · exact .inr (.inl (write_interrupted refused))
      · cases impossible
    all_goals
      cases fails
      exact .inl ⟨_, rfl, rfl⟩
  | input =>
    rcases arguments with _ | ⟨value, _ | ⟨_, _⟩⟩
    case cons.nil =>
      rcases bind_interrupted fails with refused | ⟨_, middle, wrote, broken⟩
      · exact .inr (.inl (write_interrupted refused))
      · obtain ⟨error, handed, same⟩ := readLine_interrupted broken
        have sooner : machine.HandsOver error := write_handsOver (by rw [wrote]; rfl) error handed
        exact .inr (.inl ⟨error, sooner, same⟩)
    all_goals
      cases fails
      exact .inl ⟨_, rfl, rfl⟩
  | apply =>
    rcases arguments with _ | ⟨value, _ | ⟨argument, _ | ⟨_, _⟩⟩⟩
    case cons.cons.nil =>
      simp only [invoke] at fails
      cases found : value.callable? with
      | none =>
        rw [found] at fails
        cases fails
      | some callable =>
        rw [found] at fails
        dsimp only at fails
        split at fails
        · cases callable <;> cases fails
        · cases fails
    all_goals
      cases fails
      exact .inl ⟨_, rfl, rfl⟩

/-- An overflow is none of the errors that a host hands over. -/
theorem interrupt_ne_overflow (error : HostError) (paren : Token) :
    error.interrupt ≠ .failure ⟨paren, .stackOverflow⟩ := by
  cases error <;> nofun

/-- What is or holds an error of a running program passes a call as it is; anything else is shown there. -/
theorem atCall_cases (cause : Interrupt) (paren : Token) :
    cause.runtimeError? ≠ none ∧ cause.atCall paren = cause ∨
      ∃ fault : HostFault, fault.held? = none ∧ cause.atCall paren = .failure ⟨paren, .host fault⟩ := by
  cases cause with
  | failure error => exact .inl ⟨Option.some_ne_none error, rfl⟩
  | host fault =>
    rw [Interrupt.atCall]
    cases held : fault.held? with
    | some error => exact .inl ⟨by rw [Interrupt.runtimeError?, held]; exact Option.some_ne_none error, rfl⟩
    | none => exact .inr ⟨fault, held, rfl⟩
  | breakLoop keyword | continueLoop keyword | returnValue keyword value => exact .inr ⟨_, rfl, rfl⟩

/-- Calling a built-in function makes an overflow of nothing else. -/
theorem overflow_of_atCall {cause : Interrupt} {paren other : Token}
    (same : cause.atCall paren = .failure ⟨other, .stackOverflow⟩) : cause = .failure ⟨other, .stackOverflow⟩ := by
  rcases atCall_cases cause paren with ⟨_, passed⟩ | ⟨fault, _, shown⟩
  · exact passed.symm.trans same
  · cases shown.symm.trans same

end Machine
end Treewalk

namespace Treewalk.Machine
open Run

/-- The task comes to call something that can be called so, on the machine `there`. -/
def Calls (task : Task) (machine : Machine) (paren : Token) (there : Machine) : Prop :=
  ∃ callee arguments called values callable, ∃ middle : Machine,
    task = .evaluate (.call callee paren arguments) ∧
    (Task.evaluate callee).Ends machine (.ok called) middle ∧
    (Task.evaluateAll arguments).Ends middle (.ok values) there ∧
    called.callable? = some callable ∧ callable.arity = values.length

/-- The task makes a call, and no more calls may be under way. -/
def Exceeds (task : Task) (machine : Machine) (paren : Token) : Prop :=
  ∃ there, Calls task machine paren there ∧ there.maxDepth ≤ there.depth

namespace Plan

variable {α : Type} {overflows : Token → Prop}

/-- A plan writes behind what was written before it, passes a failure of a task on at once, and
overflows the stack by itself only where it may. -/
def Orderly : (Token → Prop) → Machine → Plan α → Prop
  | overflows, before, done outcome =>
    (∀ after, outcome.after? = some after → Wrote before after) ∧
    ∀ paren after, outcome = .interrupted (.failure ⟨paren, .stackOverflow⟩) after → overflows paren
  | overflows, before, ask task machine next =>
    Wrote before machine ∧
    (∀ error after, ∃ stopped,
      next (.error (.failure error)) after = .done (.interrupted (.failure error) stopped) ∧
      stopped.output = after.output) ∧
    ∀ ending after, task.Ends machine ending after →
      (next ending after).Orderly
        (fun paren => overflows paren ∨ ending = .error (.failure ⟨paren, .stackOverflow⟩)) after

theorem Orderly.weaken {more : Token → Prop} {before : Machine} {plan : Plan α} (orderly : plan.Orderly overflows before)
    (weaker : ∀ paren, overflows paren → more paren) : plan.Orderly more before := by
  induction plan generalizing overflows more before with
  | done outcome => exact ⟨orderly.1, fun paren after overflow => weaker paren (orderly.2 paren after overflow)⟩
  | ask task machine next ih =>
    refine ⟨orderly.1, orderly.2.1, fun ending after ends => ?_⟩
    exact ih ending after (orderly.2.2 ending after ends) fun paren => .imp_left (weaker paren)

theorem orderly_value {before after : Machine} (wrote : Wrote before after) (result : α) :
    (done (.value result after)).Orderly overflows before := by
  refine ⟨?_, ?_⟩
  · rintro _ ⟨⟩
    exact wrote
  · rintro _ _ ⟨⟩

theorem orderly_interrupted {before after : Machine} (wrote : Wrote before after) {cause : Interrupt}
    (allowed : ∀ paren, cause = .failure ⟨paren, .stackOverflow⟩ → overflows paren) :
    (done (.interrupted cause after) : Plan α).Orderly overflows before := by
  refine ⟨?_, ?_⟩
  · rintro _ ⟨⟩
    exact wrote
  · rintro paren _ ⟨⟩
    exact allowed paren rfl

/-- No operation overflows the stack. -/
theorem orderly_operation {before machine : Machine} (wrote : Wrote before machine) {operation : Run α}
    (changes : Changes Wrote operation)
    (quiet : ∀ paren after, operation machine ≠ .interrupted (.failure ⟨paren, .stackOverflow⟩) after) :
    (done (operation machine)).Orderly overflows before :=
  ⟨fun after ends => wrote_allows.trans wrote (changes machine after ends),
    fun paren after overflow => absurd overflow (quiet paren after)⟩

theorem orderly_first {before machine : Machine} (wrote : Wrote before machine) {task : Task}
    {next : task.Result → Machine → Plan α}
    (goesOn : ∀ result after, task.Ends machine (.ok result) after → (next result after).Orderly overflows after) :
    (first task machine next).Orderly overflows before := by
  refine ⟨wrote, fun error after => ⟨after, rfl, rfl⟩, ?_⟩
  intro ending after ends
  cases ending with
  | ok result => exact (goesOn result after ends).weaken fun _ => .inl
  | error cause => exact orderly_interrupted (wrote_allows.refl after) fun paren same => .inr (congrArg _ same)

theorem orderly_last {before machine : Machine} (wrote : Wrote before machine) (task : Task) :
    (last task machine).Orderly overflows before := by
  refine ⟨wrote, fun error after => ⟨after, rfl, rfl⟩, ?_⟩
  intro ending after ends
  cases ending with
  | ok result => exact orderly_value (wrote_allows.refl after) result
  | error cause => exact orderly_interrupted (wrote_allows.refl after) fun paren same => .inr (congrArg _ same)

end Plan

open Plan

section

variable (machine : Machine)

private theorem wrote_recorded (event : TraceEvent) : Wrote machine (machine.recorded event) := by
  unfold recorded
  split <;> exact .of_output_eq rfl

private theorem wrote_opened (parent : FrameId) (bindings : List (Bytes × Value)) :
    Wrote machine (machine.opened parent bindings) :=
  .of_output_eq rfl

theorem callPlan_orderly {overflows : Token → Prop} (called : Value) (values : List Value) (paren : Token)
    (exceeds : ∀ callable, called.callable? = some callable → callable.arity = values.length →
      machine.maxDepth ≤ machine.depth → overflows paren) :
    (callPlan called values paren machine).Orderly overflows machine := by
  have here := wrote_allows.refl machine
  unfold callPlan
  cases found : called.callable? with
  | none => exact orderly_interrupted here fun _ impossible => by cases impossible
  | some callable =>
    dsimp only
    split
    next fits =>
      split
      next =>
        refine ⟨?_, fun error after => ⟨{ after with depth := after.depth - 1 }, ?_, rfl⟩, ?_⟩
        · have entering : Wrote machine { machine with depth := machine.depth + 1 } := .of_output_eq rfl
          exact wrote_allows.trans entering (wrote_recorded _ _)
        · unfold callEnded
          split <;> rfl
        · intro ending after _
          cases ending with
          | ok result =>
            have told := wrote_recorded after (.returned callable.text result.text)
            have leaving : Wrote _ { after.recorded (.returned callable.text result.text) with
                depth := (after.recorded (.returned callable.text result.text)).depth - 1 } :=
              wrote_allows.trans told (.of_output_eq rfl)
            exact orderly_value leaving result
          | error cause =>
            have leaving : Wrote after { after with depth := after.depth - 1 } := .of_output_eq rfl
            refine orderly_interrupted leaving fun other same => .inr ?_
            split at same
            · exact congrArg _ (overflow_of_atCall same)
            · exact congrArg _ same
      next full =>
        refine orderly_interrupted here ?_
        rintro _ ⟨⟩
        exact exceeds callable found fits (Nat.le_of_not_lt full)
    next => exact orderly_interrupted here fun _ impossible => by cases impossible

private theorem evaluatePlan_orderly (expr : Expr) :
    (evaluatePlan machine expr).Orderly (Exceeds (.evaluate expr) machine) machine := by
  have here := wrote_allows.refl
  cases expr with
  | literal value pos => exact orderly_value (here machine) _
  | name token =>
    refine orderly_operation (here machine) (wrote_allows.lookup token) fun paren after stops => ?_
    obtain ⟨error, fails, same⟩ := lookup_interrupted stops
    cases same
    cases (Heap.get_error fails).2
  | assign target value =>
    refine orderly_first (here machine) fun result after _ => orderly_operation (here after) ?_ fun paren last stops => ?_
    · exact wrote_allows.bind (wrote_allows.assign target result) fun _ => wrote_allows.succeed result
    · rcases bind_interrupted stops with stops | ⟨_, _, _, impossible⟩
      · obtain ⟨error, fails, same⟩ := assign_interrupted stops
        cases same
        cases (Heap.owner_error fails).2
      · cases impossible
  | ternary condition one two =>
    refine orderly_first (here machine) fun decision after _ => ?_
    split
    · exact orderly_last (here after) (.evaluate one)
    · exact orderly_last (here after) (.evaluate two)
  | logical left operator right =>
    refine orderly_first (here machine) fun result after _ => ?_
    split
    · exact orderly_value (here after) result
    · exact orderly_last (here after) (.evaluate right)
  | binary left operator right =>
    refine orderly_first (here machine) fun one after _ => orderly_first (here after) fun two last _ => ?_
    refine orderly_operation (here last) (wrote_allows.ofExcept _) fun paren _ stops => ?_
    obtain ⟨error, fails, same⟩ := ofExcept_interrupted stops
    cases same
    rcases (Operator.binary_error fails).2 with known | ⟨unknown, _⟩
    · cases known
    · cases unknown
  | unary operator operand =>
    refine orderly_first (here machine) fun result after _ => ?_
    refine orderly_operation (here after) (wrote_allows.ofExcept _) fun paren _ stops => ?_
    obtain ⟨error, fails, same⟩ := ofExcept_interrupted stops
    cases same
    rcases (Operator.unary_error fails).2 with known | ⟨unknown, _⟩
    · cases known
    · cases unknown
  | group inner => exact orderly_last (here machine) (.evaluate inner)
  | call callee paren arguments =>
    refine orderly_first (here machine) fun called middle first => orderly_first (here middle) fun values there second => ?_
    refine callPlan_orderly there called values paren fun callable found fits full => ?_
    exact ⟨there, ⟨callee, arguments, called, values, callable, middle, rfl, first, second, found, fits⟩, full⟩
  | hole => exact orderly_interrupted (here machine) fun _ impossible => by cases impossible

section

variable {overflows : Token → Prop}

private theorem evaluateAllPlan_orderly (exprs : List Expr) :
    (evaluateAllPlan machine exprs).Orderly overflows machine := by
  have here := wrote_allows.refl
  cases exprs with
  | nil => exact orderly_value (here machine) []
  | cons expr rest =>
    refine orderly_first (here machine) fun one after _ => orderly_first (here after) fun others last _ => ?_
    exact orderly_value (here last) _

private theorem invokePlan_orderly (callable : Callable) (arguments : List Value) :
    (invokePlan machine callable arguments).Orderly overflows machine := by
  have here := wrote_allows.refl machine
  cases callable with
  | function closure =>
    rw [invokePlan]
    split
    next =>
      refine ⟨wrote_opened machine _ _, fun error after => ⟨{ after with frame := machine.frame }, rfl, rfl⟩, ?_⟩
      intro ending after _
      have back : Wrote after { after with frame := machine.frame } := .of_output_eq rfl
      cases ending with
      | ok result => exact orderly_value back _
      | error cause =>
        cases cause with
        | returnValue keyword value => exact orderly_value back value
        | failure error => exact orderly_interrupted back fun _ same => .inr (congrArg _ same)
        | breakLoop keyword | continueLoop keyword | host fault =>
          exact orderly_interrupted back fun _ impossible => by cases impossible
    next => exact orderly_interrupted here fun _ impossible => by cases impossible
  | native builtin =>
    unfold invokePlan
    dsimp only
    split
    next value argument applies =>
      split
      next callable _ =>
        split
        · exact orderly_last here (.invoke callable [argument])
        · exact orderly_value here _
      next => exact orderly_value here _
    next =>
      refine orderly_operation here ((runsChange wrote_allows 1).invoke _ _) fun paren after stops => ?_
      rcases native_interrupt stops with ⟨_, _, impossible⟩ | ⟨error, _, same⟩ | ⟨_, text, impossible⟩
      · cases impossible
      · exact interrupt_ne_overflow error paren same.symm
      · cases impossible

/-- The next turn is as orderly as the loop is. -/
private theorem turnEnded_orderly {before : Machine} (wrote : Wrote before machine) (stmt : Stmt) {next : Machine → Plan Unit}
    (goesOn : ∀ after, (next after).Orderly overflows after) :
    (Plan.ask (.execute stmt) machine (turnEnded next)).Orderly overflows before := by
  refine ⟨wrote, fun error after => ⟨after, rfl, rfl⟩, ?_⟩
  intro ending after _
  have here := wrote_allows.refl after
  cases ending with
  | ok result => exact (goesOn after).weaken fun _ => .inl
  | error cause =>
    cases cause with
    | continueLoop keyword => exact (goesOn after).weaken fun _ => .inl
    | breakLoop keyword => exact orderly_value here ()
    | failure error => exact orderly_interrupted here fun _ same => .inr (congrArg _ same)
    | returnValue keyword value | host fault => exact orderly_interrupted here fun _ impossible => by cases impossible

private theorem repeatWhilePlan_orderly (condition : Expr) (body : Stmt) (post : Option Stmt) :
    (repeatWhilePlan machine condition body post).Orderly overflows machine := by
  have here := wrote_allows.refl
  refine orderly_first (here machine) fun decision after _ => ?_
  split
  · refine turnEnded_orderly after (here after) body fun turned => ?_
    cases post with
    | none => exact orderly_last (here turned) (.repeatWhile condition body none)
    | some stmt =>
      refine turnEnded_orderly turned (here turned) stmt fun last => ?_
      exact orderly_last (here last) (.repeatWhile condition body (some stmt))
  · exact orderly_value (here after) ()

private theorem executePlan_orderly (stmt : Stmt) : (executePlan machine stmt).Orderly overflows machine := by
  have here := wrote_allows.refl
  cases stmt with
  | expression value => exact orderly_first (here machine) fun _ after _ => orderly_value (here after) ()
  | print value =>
    refine orderly_first (here machine) fun result after _ => orderly_operation (here after) (wrote_allows.write _) ?_
    intro paren _ stops
    obtain ⟨error, _, same⟩ := write_interrupted stops
    exact interrupt_ne_overflow error paren same.symm
  | declare name initial =>
    cases initial with
    | none => exact orderly_operation (here machine) (wrote_allows.define _ _) fun _ _ impossible => by cases impossible
    | some initial =>
      refine orderly_first (here machine) fun value after _ => orderly_operation (here after) (wrote_allows.define _ _) ?_
      rintro _ _ ⟨⟩
  | block body pos =>
    refine ⟨wrote_opened machine _ _, fun error after => ⟨{ after with frame := machine.frame }, rfl, rfl⟩, ?_⟩
    intro ending after _
    have back : Wrote after { after with frame := machine.frame } := .of_output_eq rfl
    cases ending with
    | ok result => exact orderly_value back result
    | error cause => exact orderly_interrupted back fun paren same => .inr (congrArg _ same)
  | branch condition consequence alternative pos =>
    refine orderly_first (here machine) fun decision after _ => ?_
    split
    · exact orderly_last (here after) (.execute consequence)
    · cases alternative with
      | none => exact orderly_value (here after) ()
      | some alternative => exact orderly_last (here after) (.execute alternative)
  | loop condition body post pos => exact orderly_last (here machine) (.repeatWhile condition body post)
  | function name parameters body =>
    have counted : Wrote machine { machine with nextId := machine.nextId + 1 } := .of_output_eq rfl
    exact orderly_operation counted (wrote_allows.define _ _) fun _ _ impossible => by cases impossible
  | returnValue keyword result =>
    cases result with
    | none => exact orderly_interrupted (here machine) fun _ impossible => by cases impossible
    | some result =>
      refine orderly_first (here machine) fun value after _ => ?_
      exact orderly_interrupted (here after) fun _ impossible => by cases impossible
  | breakLoop keyword | continueLoop keyword | hole => exact orderly_interrupted (here machine) fun _ impossible => by cases impossible

private theorem executeAllPlan_orderly (stmts : List Stmt) : (executeAllPlan machine stmts).Orderly overflows machine := by
  have here := wrote_allows.refl
  cases stmts with
  | nil => exact orderly_value (here machine) ()
  | cons stmt rest => exact orderly_first (here machine) fun _ after _ => orderly_last (here after) (.executeAll rest)

end

/-- Only a call that exceeds the limit overflows the stack by itself. -/
theorem Task.plan_orderly (task : Task) : (task.plan machine).Orderly (Exceeds task machine) machine := by
  cases task with
  | evaluate expr => exact evaluatePlan_orderly machine expr
  | evaluateAll exprs => exact evaluateAllPlan_orderly machine exprs
  | invoke callable arguments => exact invokePlan_orderly machine callable arguments
  | execute stmt => exact executePlan_orderly machine stmt
  | executeAll stmts => exact executeAllPlan_orderly machine stmts
  | repeatWhile condition body post => exact repeatWhilePlan_orderly machine condition body post

end

theorem Task.run_changes {allowed : Machine → Machine → Prop} (allows : Allows allowed) (fuel : Nat) (task : Task) :
    Changes allowed (task.run fuel) := by
  have runs := runsChange allows fuel
  cases task with
  | evaluate expr => exact runs.evaluate expr
  | evaluateAll exprs => exact runs.evaluateAll exprs
  | invoke callable arguments => exact runs.invoke callable arguments
  | execute stmt => exact runs.execute stmt
  | executeAll stmts => exact runs.executeAll stmts
  | repeatWhile condition body post => exact runs.repeatWhile condition body post

section

variable {α : Type} {plan : Plan α} {fuel : Nat}

/-- What is left of a plan writes behind what was written before. -/
theorem Plan.Orderly.wrote {overflows : Token → Prop} {before after : Machine} (orderly : plan.Orderly overflows before)
    (ends : (plan.run (Task.run fuel)).after? = some after) : Wrote before after := by
  induction plan generalizing overflows before with
  | done outcome => exact orderly.1 after ends
  | ask task machine next ih =>
    obtain ⟨starts, _, goesOn⟩ := orderly
    rcases (task.run fuel machine).outOfFuel_or_ended with stops | ⟨ending, middle, ended⟩
    · rw [Plan.run_outOfFuel next stops] at ends
      cases ends
    · have inside : Wrote machine middle :=
        task.run_changes wrote_allows fuel machine middle (by rw [ended, Outcome.after?_ended])
      refine wrote_allows.trans starts (wrote_allows.trans inside ?_)
      rw [Plan.run_ended next ended] at ends
      exact ih ending middle (goesOn ending middle ⟨fuel, ended⟩) ends

/-- A plan that asks for something that fails, fails. -/
private theorem Plan.Orderly.fails {overflows : Token → Prop} {before point stopped : Machine} {asked : Task}
    {error : RuntimeError} (orderly : plan.Orderly overflows before) (asks : plan.Asks asked point)
    (fails : asked.Ends point (.error (.failure error)) stopped) :
    ∃ fuel after, plan.run (Task.run fuel) = .interrupted (.failure error) after := by
  induction asks generalizing overflows before with
  | here task machine next =>
    obtain ⟨fuel, ended⟩ := fails
    obtain ⟨last, passed, _⟩ := orderly.2.1 error stopped
    refine ⟨fuel, last, ?_⟩
    rw [Plan.run_ended next ended, passed]
    rfl
  | @later task machine after next ending asked point ends rest ih =>
    obtain ⟨more, last, ended⟩ := ih (orderly.2.2 ending after ends) fails
    obtain ⟨fuel, first⟩ := ends
    have firstKept := Task.run_more (Nat.le_max_left fuel more)
      (by rw [first]; exact Outcome.ended_ne_outOfFuel ending after)
    have restKept := Plan.run_more (fun task machine => Task.run_more (Nat.le_max_right fuel more)) (next ending after)
      (by rw [ended]; exact Outcome.ended_ne_outOfFuel (.error (.failure error)) last)
    refine ⟨max fuel more, last, ?_⟩
    rw [Plan.run_ended next (firstKept.trans first), restKept, ended]

/-- A plan that overflows the stack does so by itself, or asks for something that does. -/
private theorem Plan.Orderly.overflow {overflows : Token → Prop} {before after : Machine} {paren : Token}
    (orderly : plan.Orderly overflows before)
    (ends : plan.run (Task.run fuel) = .interrupted (.failure ⟨paren, .stackOverflow⟩) after) :
    overflows paren ∨ ∃ asked point last, plan.Asks asked point ∧
      asked.run fuel point = .interrupted (.failure ⟨paren, .stackOverflow⟩) last := by
  induction plan generalizing overflows before with
  | done outcome => exact .inl (orderly.2 paren after ends)
  | ask task machine next ih =>
    rcases (task.run fuel machine).outOfFuel_or_ended with stops | ⟨ending, middle, ended⟩
    · rw [Plan.run_outOfFuel next stops] at ends
      cases ends
    · rw [Plan.run_ended next ended] at ends
      rcases ih ending middle (orderly.2.2 ending middle ⟨fuel, ended⟩) ends with
        (itself | rfl) | ⟨asked, point, last, asks, overflow⟩
      · exact .inl itself
      · exact .inr ⟨task, machine, middle, .here task machine next, ended⟩
      · exact .inr ⟨asked, point, last, .later ⟨fuel, ended⟩ asks, overflow⟩

end

/-- A failure at a point of a run is how the run ends. -/
theorem Reaches.fails {task reached : Task} {machine there stopped : Machine} {error : RuntimeError}
    (reaches : Reaches task machine reached there) (fails : reached.Ends there (.error (.failure error)) stopped) :
    ∃ after, task.Ends machine (.error (.failure error)) after := by
  induction reaches with
  | start task machine => exact ⟨stopped, fails⟩
  | @ask task asked reached machine point there asks _ ih =>
    obtain ⟨middle, ended⟩ := ih fails
    obtain ⟨fuel, after, ends⟩ := (task.plan_orderly machine).fails asks ended
    exact ⟨after, fuel + 1, (Task.run_succ fuel task machine).trans ends⟩

/-- A stack overflow comes from a call that exceeds the limit. -/
theorem Reaches.of_overflow {fuel : Nat} {task : Task} {machine after : Machine} {paren : Token}
    (ends : task.run fuel machine = .interrupted (.failure ⟨paren, .stackOverflow⟩) after) :
    ∃ reached there, Reaches task machine reached there ∧ Exceeds reached there paren := by
  induction fuel generalizing task machine after with
  | zero =>
    rw [Task.run_zero] at ends
    cases ends
  | succ fuel ih =>
    rw [Task.run_succ] at ends
    rcases (task.plan_orderly machine).overflow ends with exceeds | ⟨asked, point, last, asks, overflow⟩
    · exact ⟨task, machine, .start task machine, exceeds⟩
    · obtain ⟨reached, there, reaches, exceeds⟩ := ih overflow
      exact ⟨reached, there, .ask asks reaches, exceeds⟩

/-- A call that exceeds the limit overflows the stack. -/
theorem Exceeds.overflows {task : Task} {machine : Machine} {paren : Token} (exceeds : Exceeds task machine paren) :
    ∃ after, task.Ends machine (.error (.failure ⟨paren, .stackOverflow⟩)) after := by
  obtain ⟨there, ⟨callee, arguments, called, values, callable, middle, rfl, first, second, found, fits⟩, full⟩ := exceeds
  obtain ⟨fuel, calleeEnds, argumentsEnd⟩ := first.together second
  refine ⟨there, fuel + 1, ?_⟩
  rw [Task.run_succ]
  change (evaluatePlan machine (.call callee paren arguments)).run _ = _
  unfold evaluatePlan Plan.first
  rw [Plan.run_ended _ calleeEnds]
  dsimp only
  rw [Plan.run_ended _ argumentsEnd]
  simp only [callPlan, found, if_pos fits, if_neg (Nat.not_lt_of_le full)]
  rfl

end Treewalk.Machine
