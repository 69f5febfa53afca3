import Treewalk.Session

/-! What running a program can do to the machine. A relation between the machine before and after
that holds of every single operation holds of every run, however the run ends: with a value, at a
`break`, `continue` or `return`, at an error of the program or at a failure of its host. The functions
that a host adds are operations like the others: the relation has to hold of what they do. -/

namespace Treewalk

def Outcome.after? {α : Type} : Outcome α → Option Machine
  | value _ machine => some machine
  | interrupted _ machine => some machine
  | outOfFuel => none

namespace Run

/-- However the run ends, it changes the machine in an allowed way. -/
def Changes {α : Type} (allowed : Machine → Machine → Prop) (run : Run α) : Prop :=
  ∀ before after, (run before).after? = some after → allowed before after

variable [Natives]

/-- What a relation must allow. A computation in another frame and one more call have to be allowed
when what they do inside is. -/
structure Allows (allowed : Machine → Machine → Prop) : Prop where
  refl : ∀ machine, allowed machine machine
  trans : ∀ {first second third}, allowed first second → allowed second third → allowed first third
  within : ∀ {before after} frame, allowed { before with frame } after →
    allowed before { after with frame := before.frame }
  asCall : ∀ {before after}, allowed { before with depth := before.depth + 1 } after →
    allowed before { after with depth := after.depth - 1 }
  write : ∀ text, Changes allowed (write text)
  readLine : Changes allowed readLine
  readClock : Changes allowed readClock
  newFrame : ∀ parent, Changes allowed (newFrame parent)
  define : ∀ name value, Changes allowed (define name value)
  defineAll : ∀ frame bindings, Changes allowed (defineAll frame bindings)
  assign : ∀ name value, Changes allowed (assign name value)
  newId : Changes allowed newId
  record : ∀ event, Changes allowed (record event)
  native : ∀ index arguments, Changes allowed (Natives.run index arguments)

section

omit [Natives]
variable {before after : Machine}

theorem write_after {text : Bytes} (ends : (write text before).after? = some after) :
    after = { before with output := before.output.refused } ∨
      after = { before with output := before.output.add (.printed text) } := by
  unfold write at ends
  split at ends
  · cases ends
    exact .inl rfl
  · cases ends
    exact .inr rfl

theorem readLine_after (ends : (readLine before).after? = some after) :
    ∃ input, after = { before with input } := by
  unfold readLine at ends
  split at ends <;> cases ends <;> exact ⟨_, rfl⟩

theorem assign_after {name : Token} {value : Value} (ends : (assign name value before).after? = some after) :
    ∃ heap, after = { before with heap } := by
  unfold assign at ends
  split at ends <;> cases ends <;> exact ⟨_, rfl⟩

theorem record_after {event : TraceEvent} (ends : (record event before).after? = some after) :
    ∃ trace, after = { before with trace } := by
  cases ends
  dsimp only
  split <;> exact ⟨_, rfl⟩

end

/-- Of the operations, only writing and tracing need care: the others change the frames and take what the
input, the clock and the numbers offer. -/
theorem Allows.of_quiet {allowed : Machine → Machine → Prop}
    (quiet : ∀ (machine : Machine) heap input nextId ticks, allowed machine { machine with heap, input, nextId, ticks })
    (trans : ∀ {first second third}, allowed first second → allowed second third → allowed first third)
    (within : ∀ {before after : Machine} frame, allowed { before with frame } after →
      allowed before { after with frame := before.frame })
    (asCall : ∀ {before after : Machine}, allowed { before with depth := before.depth + 1 } after →
      allowed before { after with depth := after.depth - 1 })
    (write : ∀ text, Changes allowed (Run.write text)) (record : ∀ event, Changes allowed (Run.record event))
    (native : ∀ index arguments, Changes allowed (Natives.run index arguments)) : Allows allowed where
  refl machine := quiet machine machine.heap machine.input machine.nextId machine.ticks
  trans := trans
  within := within
  asCall := asCall
  write := write
  readLine := by
    intro before after ends
    obtain ⟨input, rfl⟩ := readLine_after ends
    exact quiet before before.heap input before.nextId before.ticks
  readClock := by
    intro before after ends
    cases ends
    exact quiet before before.heap before.input before.nextId (before.ticks + 1)
  newFrame parent := by
    intro before after ends
    cases ends
    exact quiet before _ before.input before.nextId before.ticks
  define name value := by
    intro before after ends
    cases ends
    exact quiet before _ before.input before.nextId before.ticks
  defineAll frame bindings := by
    intro before after ends
    cases ends
    exact quiet before _ before.input before.nextId before.ticks
  assign name value := by
    intro before after ends
    obtain ⟨heap, rfl⟩ := assign_after ends
    exact quiet before heap before.input before.nextId before.ticks
  newId := by
    intro before after ends
    cases ends
    exact quiet before before.heap before.input (before.nextId + 1) before.ticks
  record := record
  native := native

omit [Natives] in
theorem Changes.continues {allowed : Machine → Machine → Prop} {body : Run Unit} (inside : Changes allowed body) :
    Changes allowed (Machine.continues body) := by
  intro before after ends
  unfold Machine.continues at ends
  apply inside before after
  cases outcome : body before with
  | value result middle =>
    rw [outcome] at ends
    exact ends
  | interrupted cause middle =>
    rw [outcome] at ends
    cases cause <;> exact ends
  | outOfFuel =>
    rw [outcome] at ends
    exact ends

namespace Allows

variable {allowed : Machine → Machine → Prop} (allows : Allows allowed) {α β : Type}
include allows

theorem succeed (result : α) : Changes allowed (pure result) := by
  intro before after ends
  cases ends
  exact allows.refl before

theorem interrupt (cause : Interrupt) : Changes allowed (Run.interrupt cause : Run α) := by
  intro before after ends
  cases ends
  exact allows.refl before

theorem read (view : Machine → α) : Changes allowed (Run.read view) := by
  intro before after ends
  cases ends
  exact allows.refl before

theorem ofExcept (result : Except RuntimeError α) : Changes allowed (Run.ofExcept result) := by
  cases result with
  | ok value => exact allows.succeed value
  | error error => exact allows.interrupt (.failure error)

theorem lookup (name : Token) : Changes allowed (Run.lookup name) := by
  intro before after ends
  unfold Run.lookup at ends
  split at ends <;> cases ends <;> exact allows.refl before

theorem bind {first : Run α} {next : α → Run β} (begins : Changes allowed first)
    (goesOn : ∀ result, Changes allowed (next result)) : Changes allowed (first >>= next) := by
  intro before after ends
  change (andThen first next before).after? = some after at ends
  unfold andThen at ends
  cases outcome : first before with
  | value result middle =>
    rw [outcome] at ends
    exact allows.trans (begins before middle (by rw [outcome]; rfl)) (goesOn result middle after ends)
  | interrupted cause middle =>
    rw [outcome] at ends
    exact begins before after (by rw [outcome]; exact ends)
  | outOfFuel =>
    rw [outcome] at ends
    cases ends

theorem intercept {body : Run α} {handler : Interrupt → Run α} (begins : Changes allowed body)
    (handles : ∀ cause, Changes allowed (handler cause)) : Changes allowed (body.intercept handler) := by
  intro before after ends
  unfold Run.intercept at ends
  cases outcome : body before with
  | value result middle =>
    rw [outcome] at ends
    exact begins before after (by rw [outcome]; exact ends)
  | interrupted cause middle =>
    rw [outcome] at ends
    exact allows.trans (begins before middle (by rw [outcome]; rfl)) (handles cause middle after ends)
  | outOfFuel =>
    rw [outcome] at ends
    cases ends

theorem inFrame (frame : FrameId) {body : Run α} (inside : Changes allowed body) :
    Changes allowed (Run.within frame body) := by
  intro before after ends
  unfold Run.within at ends
  cases outcome : body { before with frame } with
  | value result middle | interrupted result middle =>
    rw [outcome] at ends
    cases ends
    exact allows.within frame (inside _ middle (by rw [outcome]; rfl))
  | outOfFuel =>
    rw [outcome] at ends
    cases ends

theorem inCall {body : Run α} (inside : Changes allowed body) : Changes allowed (Run.asCall body) := by
  intro before after ends
  unfold Run.asCall at ends
  cases outcome : body { before with depth := before.depth + 1 } with
  | value result middle | interrupted result middle =>
    rw [outcome] at ends
    cases ends
    exact allows.asCall (inside _ middle (by rw [outcome]; rfl))
  | outOfFuel =>
    rw [outcome] at ends
    cases ends

theorem resultOf (cause : Interrupt) : Changes allowed (Machine.resultOf cause) := by
  cases cause with
  | returnValue keyword value => exact allows.succeed value
  | _ => exact allows.interrupt _

theorem traced (callee : Callable) (arguments : List Value) (paren : Token) {body : Run Value}
    (inside : Changes allowed body) : Changes allowed (Machine.traced callee arguments paren body) := by
  refine allows.bind (allows.read _) fun depth => allows.bind (allows.read _) fun limit => ?_
  split
  · refine allows.inCall (allows.bind (allows.record _) fun _ => ?_)
    refine allows.bind (allows.intercept inside fun cause => allows.interrupt _) fun result => ?_
    exact allows.bind (allows.record _) fun _ => allows.succeed result
  · exact allows.interrupt _

end Allows
end Run

namespace Machine
open Run

variable [Natives]

structure RunsChange (allowed : Machine → Machine → Prop) (fuel : Nat) : Prop where
  evaluate : ∀ expr, Changes allowed (evaluate fuel expr)
  evaluateAll : ∀ exprs, Changes allowed (evaluateAll fuel exprs)
  invoke : ∀ callable arguments, Changes allowed (invoke fuel callable arguments)
  execute : ∀ stmt, Changes allowed (execute fuel stmt)
  executeAll : ∀ stmts, Changes allowed (executeAll fuel stmts)
  repeatWhile : ∀ condition body post, Changes allowed (repeatWhile fuel condition body post)

section

variable {allowed : Machine → Machine → Prop} (allows : Allows allowed) {fuel : Nat} (ih : RunsChange allowed fuel)
include allows ih

private theorem evaluate_changes (expr : Expr) : Changes allowed (evaluate (fuel + 1) expr) := by
  rw [evaluate.eq_def]
  dsimp only
  cases expr with
  | literal value pos => exact allows.succeed _
  | name token => exact allows.lookup token
  | assign target value =>
    refine allows.bind (ih.evaluate value) fun result => ?_
    exact allows.bind (allows.assign target result) fun _ => allows.succeed result
  | ternary condition first second =>
    refine allows.bind (ih.evaluate condition) fun decision => ?_
    split
    · exact ih.evaluate first
    · exact ih.evaluate second
  | logical left operator right =>
    refine allows.bind (ih.evaluate left) fun result => ?_
    split
    · exact allows.succeed result
    · exact ih.evaluate right
  | binary left operator right =>
    refine allows.bind (ih.evaluate left) fun first => allows.bind (ih.evaluate right) fun second => ?_
    exact allows.ofExcept _
  | unary operator operand => exact allows.bind (ih.evaluate operand) fun result => allows.ofExcept _
  | group inner => exact ih.evaluate inner
  | call callee paren arguments =>
    refine allows.bind (ih.evaluate callee) fun called => allows.bind (ih.evaluateAll arguments) fun values => ?_
    split
    · exact allows.interrupt _
    · split
      · exact allows.traced _ values paren (ih.invoke _ values)
      · exact allows.interrupt _
  | hole => exact allows.interrupt _

private theorem evaluateAll_changes (exprs : List Expr) : Changes allowed (evaluateAll (fuel + 1) exprs) := by
  cases exprs with
  | nil => exact allows.succeed []
  | cons expr rest =>
    refine allows.bind (ih.evaluate expr) fun first => ?_
    exact allows.bind (ih.evaluateAll rest) fun others => allows.succeed _

private theorem invoke_changes (callable : Callable) (arguments : List Value) :
    Changes allowed (invoke (fuel + 1) callable arguments) := by
  cases callable with
  | function closure =>
    rw [invoke]
    split
    · refine allows.bind (allows.newFrame _) fun frame => allows.bind (allows.defineAll frame _) fun _ => ?_
      refine allows.intercept ?_ allows.resultOf
      exact allows.bind (allows.inFrame frame (ih.executeAll closure.body)) fun _ => allows.succeed _
    · exact allows.interrupt _
  | native builtin =>
    rw [invoke.eq_def]
    dsimp only
    split
    · exact allows.readClock
    · exact allows.bind (allows.write _) fun _ => allows.succeed _
    · exact allows.bind (allows.write _) fun _ => allows.readLine
    · exact allows.interrupt _
    · exact allows.interrupt _
    · split
      · split
        · exact ih.invoke _ _
        · exact allows.succeed _
      · exact allows.succeed _
    · exact allows.succeed _
    · exact allows.native _ _
    · exact allows.interrupt _

private theorem execute_changes (stmt : Stmt) : Changes allowed (execute (fuel + 1) stmt) := by
  rw [execute.eq_def]
  dsimp only
  cases stmt with
  | expression value => exact allows.bind (ih.evaluate value) fun _ => allows.succeed ()
  | print value => exact allows.bind (ih.evaluate value) fun result => allows.write _
  | declare name initial =>
    cases initial with
    | none => exact allows.define _ _
    | some initial => exact allows.bind (ih.evaluate initial) fun value => allows.define _ value
  | block body pos =>
    refine allows.bind (allows.read _) fun outer => allows.bind (allows.newFrame outer) fun frame => ?_
    exact allows.inFrame frame (ih.executeAll body)
  | branch condition consequence alternative pos =>
    refine allows.bind (ih.evaluate condition) fun decision => ?_
    split
    · exact ih.execute consequence
    · cases alternative with
      | none => exact allows.succeed ()
      | some alternative => exact ih.execute alternative
  | loop condition body post pos => exact ih.repeatWhile condition body post
  | breakLoop keyword | continueLoop keyword => exact allows.interrupt _
  | function name parameters body =>
    refine allows.bind allows.newId fun id => allows.bind (allows.read _) fun frame => ?_
    exact allows.define _ _
  | returnValue keyword result =>
    cases result with
    | none => exact allows.interrupt _
    | some result => exact allows.bind (ih.evaluate result) fun value => allows.interrupt _
  | hole => exact allows.interrupt _

private theorem executeAll_changes (stmts : List Stmt) : Changes allowed (executeAll (fuel + 1) stmts) := by
  cases stmts with
  | nil => exact allows.succeed ()
  | cons stmt rest => exact allows.bind (ih.execute stmt) fun _ => ih.executeAll rest

private theorem repeatWhile_changes (condition : Expr) (body : Stmt) (post : Option Stmt) :
    Changes allowed (repeatWhile (fuel + 1) condition body post) := by
  rw [repeatWhile]
  refine allows.bind (ih.evaluate condition) fun decision => ?_
  split
  · refine allows.bind (ih.execute body).continues fun goesOn => ?_
    split
    · have again : ∀ goesOn : Bool,
          Changes allowed (if goesOn then repeatWhile fuel condition body post else pure ()) := by
        intro goesOn
        split
        · exact ih.repeatWhile condition body post
        · exact allows.succeed ()
      cases post with
      | none => exact allows.bind (allows.succeed true) again
      | some post => exact allows.bind (ih.execute post).continues again
    · exact allows.succeed ()
  · exact allows.succeed ()

end

theorem runsChange {allowed : Machine → Machine → Prop} (allows : Allows allowed) (fuel : Nat) :
    RunsChange allowed fuel := by
  induction fuel with
  | zero =>
    constructor
    case evaluateAll | executeAll =>
      intro list before after ends
      cases list <;> cases ends
    case invoke =>
      intro callable arguments before after ends
      cases callable <;> cases ends
    all_goals
      intros
      intro before after ends
      cases ends
  | succ fuel ih =>
    exact ⟨evaluate_changes allows ih, evaluateAll_changes allows ih, invoke_changes allows ih, execute_changes allows ih,
      executeAll_changes allows ih, repeatWhile_changes allows ih⟩

end Machine

end Treewalk
