import Treewalk.Machine.Evaluator
import Treewalk.Proofs.MachineRelocation

/-! Runs seen in a mirror. A mirror shows another machine for each machine; when every single operation
does to the machine in the mirror what the mirror shows of it, so does every run. The identity as a
mirror tells that more fuel changes nothing. -/

namespace Treewalk

/-- With a `lenient` mirror, the run in the mirror may have more fuel. -/
structure Mirror where
  move : Position → Position
  machine : Machine → Machine
  lenient : Prop

def Outcome.Mirrored {α β : Type} (mirror : Mirror) (shown : α → β) : Outcome α → Outcome β → Prop
  | value result machine, other => other = value (shown result) (mirror.machine machine)
  | interrupted cause machine, other =>
    ∃ moved, cause.Moved mirror.move moved ∧ other = interrupted moved (mirror.machine machine)
  | outOfFuel, other => mirror.lenient ∨ other = outOfFuel

def Outcome.fold {α β : Type} (onValue : α → Machine → Outcome β) (onInterrupt : Interrupt → Machine → Outcome β) :
    Outcome α → Outcome β
  | value result machine => onValue result machine
  | interrupted cause machine => onInterrupt cause machine
  | outOfFuel => outOfFuel

theorem Outcome.Mirrored.fold {α β γ δ : Type} {mirror : Mirror} {first : α → β} {shown : γ → δ}
    {outcome : Outcome α} {other : Outcome β} (alike : outcome.Mirrored mirror first other)
    {onValue : α → Machine → Outcome γ} {onInterrupt : Interrupt → Machine → Outcome γ}
    {withValue : β → Machine → Outcome δ} {withInterrupt : Interrupt → Machine → Outcome δ}
    (values : ∀ result machine,
      (onValue result machine).Mirrored mirror shown (withValue (first result) (mirror.machine machine)))
    (interrupts : ∀ cause moved machine, cause.Moved mirror.move moved →
      (onInterrupt cause machine).Mirrored mirror shown (withInterrupt moved (mirror.machine machine))) :
    (outcome.fold onValue onInterrupt).Mirrored mirror shown (other.fold withValue withInterrupt) := by
  cases outcome with
  | value result machine =>
    cases alike
    exact values result machine
  | interrupted cause machine =>
    obtain ⟨moved, same, rfl⟩ := alike
    exact interrupts cause moved machine same
  | outOfFuel =>
    rcases alike with lenient | rfl
    · exact .inl lenient
    · exact .inr rfl

namespace Run

def Mirrored {α β : Type} (mirror : Mirror) (shown : α → β) (run : Run α) (other : Run β) : Prop :=
  ∀ machine, (run machine).Mirrored mirror shown (other (mirror.machine machine))

end Run

namespace Mirror
open Run

structure Faithful (mirror : Mirror) : Prop where
  frame : ∀ machine, (mirror.machine machine).frame = machine.frame
  depth : ∀ machine, (mirror.machine machine).depth = machine.depth
  maxDepth : ∀ machine, (mirror.machine machine).maxDepth = machine.maxDepth
  within : ∀ machine frame, mirror.machine { machine with frame } = { mirror.machine machine with frame }
  asCall : ∀ machine depth, mirror.machine { machine with depth } = { mirror.machine machine with depth }
  write : ∀ text, Mirrored mirror id (write text) (write text)
  readLine : Mirrored mirror (Value.relocate mirror.move) readLine readLine
  readClock : Mirrored mirror (Value.relocate mirror.move) readClock readClock
  newFrame : ∀ parent, Mirrored mirror id (newFrame parent) (newFrame parent)
  define : ∀ name value, Mirrored mirror id (define name value) (define name (value.relocate mirror.move))
  defineAll : ∀ frame bindings,
    Mirrored mirror id (defineAll frame bindings) (defineAll frame (relocateBindings mirror.move bindings))
  lookup : ∀ name, Mirrored mirror (Value.relocate mirror.move) (lookup name) (lookup (name.relocate mirror.move))
  assign : ∀ name value,
    Mirrored mirror id (assign name value) (assign (name.relocate mirror.move) (value.relocate mirror.move))
  newId : Mirrored mirror id newId newId
  called : ∀ callee arguments pos depth, Mirrored mirror id (record (.called callee arguments pos.line depth))
    (record (.called callee arguments (mirror.move pos).line depth))
  returned : ∀ callee value, Mirrored mirror id (record (.returned callee value)) (record (.returned callee value))

section

variable {mirror : Mirror} {α β γ δ : Type}

theorem succeed (shown : α → β) (result : α) : Mirrored mirror shown (pure result) (pure (shown result)) :=
  fun _ => rfl

theorem interrupt {cause other : Interrupt} (moved : cause.Moved mirror.move other) (shown : α → β) :
    Mirrored mirror shown (Run.interrupt cause) (Run.interrupt other) :=
  fun _ => ⟨other, moved, rfl⟩

theorem fail (token : Token) (cause : Cause) (shown : α → β) :
    Mirrored mirror shown (Run.fail token cause) (Run.fail (token.relocate mirror.move) cause) :=
  interrupt (.failure (.along token cause)) shown

theorem ofExcept {shown : α → β} {result : Except RuntimeError α} {other : Except RuntimeError β}
    (moved : ResultsMoved mirror.move shown result other) :
    Mirrored mirror shown (Run.ofExcept result) (Run.ofExcept other) := by
  cases result with
  | ok value =>
    cases moved
    exact succeed shown value
  | error error =>
    obtain ⟨other, moved, rfl⟩ := moved
    exact interrupt (.failure moved) shown

theorem read {view : Machine → α} (same : ∀ machine, view (mirror.machine machine) = view machine) :
    Mirrored mirror id (Run.read view) (Run.read view) := by
  intro machine
  unfold Run.read
  rw [same]
  rfl

theorem bind {first : α → β} {shown : γ → δ} {run : Run α} {other : Run β} {next : α → Run γ} {goesOn : β → Run δ}
    (begins : Mirrored mirror first run other)
    (continues : ∀ result, Mirrored mirror shown (next result) (goesOn (first result))) :
    Mirrored mirror shown (run >>= next) (other >>= goesOn) := by
  have folded : ∀ {α β : Type} (run : Run α) (next : α → Run β) machine,
      (run >>= next) machine = (run machine).fold next .interrupted := by
    intro α β run next machine
    change andThen run next machine = _
    unfold andThen
    cases run machine <;> rfl
  intro machine
  rw [folded, folded]
  exact (begins machine).fold continues fun cause moved middle same => ⟨moved, same, rfl⟩

theorem intercept {shown : α → β} {run : Run α} {other : Run β} {handler : Interrupt → Run α}
    {handles : Interrupt → Run β} (begins : Mirrored mirror shown run other)
    (continues : ∀ cause moved, cause.Moved mirror.move moved → Mirrored mirror shown (handler cause) (handles moved)) :
    Mirrored mirror shown (run.intercept handler) (other.intercept handles) := by
  have folded : ∀ {α : Type} (run : Run α) handler machine,
      run.intercept handler machine = (run machine).fold .value handler := by
    intro α run handler machine
    unfold Run.intercept
    cases run machine <;> rfl
  intro machine
  rw [folded, folded]
  exact (begins machine).fold (fun _ _ => rfl) fun cause moved middle same => continues cause moved same middle

theorem goesOn {body other : Run Unit} (inside : Mirrored mirror id body other) :
    Mirrored mirror id (Machine.continues body) (Machine.continues other) := by
  have folded : ∀ (body : Run Unit) machine, Machine.continues body machine =
      (body machine).fold (fun _ => .value true) fun cause middle => Machine.continues (Run.interrupt cause) middle := by
    intro body machine
    unfold Machine.continues
    cases body machine <;> rfl
  intro machine
  rw [folded, folded]
  refine (inside machine).fold (fun _ _ => rfl) fun cause moved middle same => ?_
  cases same with
  | breakLoop | continueLoop => rfl
  | returnValue keyword value => exact ⟨_, .returnValue keyword value, rfl⟩
  | failure moved => exact ⟨_, .failure moved, rfl⟩
  | host fault => exact ⟨_, .host fault, rfl⟩

theorem resultOf {cause other : Interrupt} (moved : cause.Moved mirror.move other) :
    Mirrored mirror (Value.relocate mirror.move) (Machine.resultOf cause) (Machine.resultOf other) := by
  cases moved with
  | returnValue keyword value => exact succeed (Value.relocate mirror.move) value
  | breakLoop keyword => exact interrupt (Interrupt.Moved.escaped (.breakLoop keyword)) _
  | continueLoop keyword => exact interrupt (Interrupt.Moved.escaped (.continueLoop keyword)) _
  | failure same => exact interrupt (.failure same) _
  | host fault => exact interrupt (.host fault) _

end

namespace Faithful

variable {mirror : Mirror} (faithful : mirror.Faithful) {α β : Type}
include faithful

theorem inFrame {shown : α → β} (frame : FrameId) {body : Run α} {other : Run β} (inside : Mirrored mirror shown body other) :
    Mirrored mirror shown (Run.within frame body) (Run.within frame other) := by
  have folded : ∀ {α : Type} (body : Run α) machine, Run.within frame body machine =
      (body { machine with frame }).fold (fun result after => .value result { after with frame := machine.frame })
        (fun cause after => .interrupted cause { after with frame := machine.frame }) := by
    intro α body machine
    unfold Run.within
    dsimp only
    cases body { machine with frame } <;> rfl
  intro machine
  have ended := inside { machine with frame }
  rw [faithful.within] at ended
  rw [folded, folded, faithful.frame]
  refine ended.fold (fun result after => ?_) fun cause moved after same => ⟨moved, same, ?_⟩
  · exact congrArg (Outcome.value _) (faithful.within after _).symm
  · exact congrArg (Outcome.interrupted _) (faithful.within after _).symm

theorem inCall {shown : α → β} {body : Run α} {other : Run β} (inside : Mirrored mirror shown body other) :
    Mirrored mirror shown (Run.asCall body) (Run.asCall other) := by
  have folded : ∀ {α : Type} (body : Run α) machine, Run.asCall body machine =
      (body { machine with depth := machine.depth + 1 }).fold
        (fun result after => .value result { after with depth := after.depth - 1 })
        (fun cause after => .interrupted cause { after with depth := after.depth - 1 }) := by
    intro α body machine
    unfold Run.asCall
    cases body { machine with depth := machine.depth + 1 } <;> rfl
  intro machine
  have ended := inside { machine with depth := machine.depth + 1 }
  rw [faithful.asCall] at ended
  rw [folded, folded, faithful.depth]
  refine ended.fold (fun result after => ?_) fun cause moved after same => ⟨moved, same, ?_⟩
  · rw [faithful.depth]
    exact congrArg (Outcome.value _) (faithful.asCall after _).symm
  · rw [faithful.depth]
    exact congrArg (Outcome.interrupted _) (faithful.asCall after _).symm

theorem traced (callee : Callable) (arguments : List Value) (paren : Token) {body other : Run Value}
    (inside : Mirrored mirror (Value.relocate mirror.move) body other) :
    Mirrored mirror (Value.relocate mirror.move) (Machine.traced callee arguments paren body)
      (Machine.traced (callee.relocate mirror.move) (arguments.map (Value.relocate mirror.move))
        (paren.relocate mirror.move) other) := by
  refine bind (read faithful.depth) fun depth => bind (read faithful.maxDepth) fun limit => ?_
  simp only [id_eq, Callable.relocate_text, Callable.relocate_isNative, List.length_map]
  split
  · refine faithful.inCall (bind (faithful.called _ _ paren.pos _) fun _ => bind (intercept inside ?_) fun result => ?_)
    · intro cause moved same
      split
      · exact interrupt (same.atCall paren) _
      · exact interrupt same _
    · rw [Value.relocate_text]
      exact bind (faithful.returned _ _) fun _ => succeed _ result
  · exact fail paren _ _

end Faithful
end Mirror

namespace Machine
open Run Mirror

structure RunsMirror (mirror : Mirror) (fuel more : Nat) : Prop where
  evaluate : ∀ expr, Mirrored mirror (Value.relocate mirror.move) (evaluate fuel expr)
    (evaluate more (expr.relocate mirror.move))
  evaluateAll : ∀ exprs, Mirrored mirror (List.map (Value.relocate mirror.move)) (evaluateAll fuel exprs)
    (evaluateAll more (exprs.map (Expr.relocate mirror.move)))
  invoke : ∀ callable arguments, Mirrored mirror (Value.relocate mirror.move) (invoke fuel callable arguments)
    (invoke more (callable.relocate mirror.move) (arguments.map (Value.relocate mirror.move)))
  execute : ∀ stmt, Mirrored mirror id (execute fuel stmt) (execute more (stmt.relocate mirror.move))
  executeAll : ∀ stmts, Mirrored mirror id (executeAll fuel stmts)
    (executeAll more (stmts.map (Stmt.relocate mirror.move)))
  repeatWhile : ∀ condition body post, Mirrored mirror id (repeatWhile fuel condition body post)
    (repeatWhile more (condition.relocate mirror.move) (body.relocate mirror.move) (post.map (Stmt.relocate mirror.move)))

section

variable {mirror : Mirror} (faithful : mirror.Faithful) {fuel more : Nat} (ih : RunsMirror mirror fuel more)
include faithful ih

private theorem evaluate_mirrored (expr : Expr) : Mirrored mirror (Value.relocate mirror.move) (evaluate (fuel + 1) expr)
    (evaluate (more + 1) (expr.relocate mirror.move)) := by
  cases expr with
  | literal value pos =>
    simp only [Expr.relocate, evaluate]
    have shown : Mirrored mirror (Value.relocate mirror.move) (pure value.toValue) _ := succeed _ value.toValue
    rwa [Literal.toValue_relocate] at shown
  | name token => exact faithful.lookup token
  | assign target value =>
    simp only [Expr.relocate, evaluate]
    refine bind (ih.evaluate value) fun result => ?_
    exact bind (faithful.assign target result) fun _ => succeed _ result
  | ternary condition first second =>
    simp only [Expr.relocate, evaluate]
    refine bind (ih.evaluate condition) fun decision => ?_
    rw [Value.relocate_isTruthy]
    split
    · exact ih.evaluate first
    · exact ih.evaluate second
  | logical left operator right =>
    simp only [Expr.relocate, evaluate]
    refine bind (ih.evaluate left) fun result => ?_
    rw [Operator.decides_relocate]
    split
    · exact succeed _ result
    · exact ih.evaluate right
  | binary left operator right =>
    simp only [Expr.relocate, evaluate]
    refine bind (ih.evaluate left) fun first => bind (ih.evaluate right) fun second => ?_
    exact ofExcept (Operator.binary_moved operator first second)
  | unary operator operand =>
    simp only [Expr.relocate, evaluate]
    exact bind (ih.evaluate operand) fun result => ofExcept (Operator.unary_moved operator result)
  | group inner =>
    simp only [Expr.relocate, evaluate]
    exact ih.evaluate inner
  | call callee paren arguments =>
    simp only [Expr.relocate, evaluate, Expr.relocateEach_eq_map]
    refine bind (ih.evaluate callee) fun called => bind (ih.evaluateAll arguments) fun values => ?_
    rw [Value.relocate_callable?]
    cases called.callable? with
    | none => exact fail paren _ _
    | some callable =>
      simp only [Option.map_some, Callable.relocate_arity, List.length_map]
      split
      · exact faithful.traced callable values paren (ih.invoke callable values)
      · exact fail paren _ _
  | hole => exact interrupt (.host _) _

omit faithful in
private theorem evaluateAll_mirrored (exprs : List Expr) :
    Mirrored mirror (List.map (Value.relocate mirror.move)) (evaluateAll (fuel + 1) exprs)
      (evaluateAll (more + 1) (exprs.map (Expr.relocate mirror.move))) := by
  cases exprs with
  | nil => exact succeed (List.map (Value.relocate mirror.move)) []
  | cons expr rest =>
    refine bind (ih.evaluate expr) fun first => bind (ih.evaluateAll rest) fun others => ?_
    exact succeed (List.map (Value.relocate mirror.move)) (first :: others)

private theorem invoke_mirrored (callable : Callable) (arguments : List Value) :
    Mirrored mirror (Value.relocate mirror.move) (invoke (fuel + 1) callable arguments)
      (invoke (more + 1) (callable.relocate mirror.move) (arguments.map (Value.relocate mirror.move))) := by
  cases callable with
  | function closure =>
    simp only [Callable.relocate, invoke, Closure.relocate, List.length_map]
    split
    · refine bind (faithful.newFrame closure.frame) fun frame => ?_
      have paired : closure.parameters.zip (arguments.map (Value.relocate mirror.move)) =
          relocateBindings mirror.move (closure.parameters.zip arguments) := by
        rw [relocateBindings, List.zip_map_right]
        rfl
      rw [paired]
      refine bind (faithful.defineAll frame _) fun _ => intercept ?_ fun cause moved same => Mirror.resultOf same
      exact bind (faithful.inFrame frame (ih.executeAll closure.body)) fun _ => succeed (Value.relocate mirror.move) .null
    · exact interrupt (.host _) _
  | native builtin =>
    rw [Callable.relocate, invoke.eq_def, invoke.eq_def (more + 1)]
    dsimp only
    cases builtin.primitive with
    | clock => exact faithful.readClock
    | print =>
      rcases arguments with _ | ⟨value, _ | ⟨_, _⟩⟩
      · exact interrupt (.host _) _
      · simp only [List.map_cons, List.map_nil, Value.relocate_text]
        exact bind (faithful.write _) fun _ => succeed (Value.relocate mirror.move) .null
      · exact interrupt (.host _) _
    | input =>
      rcases arguments with _ | ⟨prompt, _ | ⟨_, _⟩⟩
      · exact interrupt (.host _) _
      · simp only [List.map_cons, List.map_nil, Value.relocate_text]
        exact bind (faithful.write _) fun _ => faithful.readLine
      · exact interrupt (.host _) _
    | fail | foreign index => exact interrupt (.host _) _
    | raise =>
      rcases arguments with _ | ⟨value, _ | ⟨_, _⟩⟩
      · exact interrupt (.host _) _
      · simp only [List.map_cons, List.map_nil, Value.relocate_text]
        exact interrupt (.failure (.fixed _)) _
      · exact interrupt (.host _) _
    | apply =>
      rcases arguments with _ | ⟨value, _ | ⟨argument, _ | ⟨_, _⟩⟩⟩
      · exact interrupt (.host _) _
      · exact interrupt (.host _) _
      · simp only [List.map_cons, List.map_nil, Value.relocate_callable?]
        cases value.callable? with
        | none => exact succeed (Value.relocate mirror.move) .null
        | some callable =>
          simp only [Option.map_some, Callable.relocate_arity]
          split
          · exact ih.invoke callable [argument]
          · exact succeed (Value.relocate mirror.move) .null
      · exact interrupt (.host _) _
    | inert => exact succeed (Value.relocate mirror.move) .null

private theorem execute_mirrored (stmt : Stmt) :
    Mirrored mirror id (execute (fuel + 1) stmt) (execute (more + 1) (stmt.relocate mirror.move)) := by
  cases stmt with
  | expression value =>
    simp only [Stmt.relocate, execute]
    exact bind (ih.evaluate value) fun _ => succeed id ()
  | print value =>
    simp only [Stmt.relocate, execute]
    refine bind (ih.evaluate value) fun result => ?_
    rw [Value.relocate_text]
    exact faithful.write _
  | declare name initial =>
    cases initial with
    | none => exact faithful.define _ .uninitialized
    | some initial =>
      simp only [Stmt.relocate, Option.map_some, execute]
      exact bind (ih.evaluate initial) fun value => faithful.define _ value
  | block body pos =>
    simp only [Stmt.relocate, execute, Stmt.relocateEach_eq_map]
    refine bind (read faithful.frame) fun outer => bind (faithful.newFrame outer) fun frame => ?_
    exact faithful.inFrame frame (ih.executeAll body)
  | branch condition consequence alternative pos =>
    rw [Stmt.relocate_branch, execute.eq_def, execute.eq_def (more + 1)]
    dsimp only
    refine bind (ih.evaluate condition) fun decision => ?_
    rw [Value.relocate_isTruthy]
    split
    · exact ih.execute consequence
    · cases alternative with
      | none => exact succeed id ()
      | some alternative => exact ih.execute alternative
  | loop condition body post pos =>
    rw [Stmt.relocate_loop, execute, execute]
    exact ih.repeatWhile condition body post
  | breakLoop keyword => exact interrupt (.breakLoop keyword) _
  | continueLoop keyword => exact interrupt (.continueLoop keyword) _
  | function name parameters body =>
    simp only [Stmt.relocate, execute, Stmt.relocateEach_eq_map, List.map_map]
    refine bind faithful.newId fun number => bind (read faithful.frame) fun frame => ?_
    exact faithful.define _ (.callable (.function _))
  | returnValue keyword result =>
    cases result with
    | none => exact interrupt (.returnValue keyword .null) _
    | some result =>
      simp only [Stmt.relocate, Option.map_some, execute]
      exact bind (ih.evaluate result) fun value => interrupt (.returnValue keyword value) _
  | hole => exact interrupt (.host _) _

omit faithful in
private theorem executeAll_mirrored (stmts : List Stmt) :
    Mirrored mirror id (executeAll (fuel + 1) stmts)
      (executeAll (more + 1) (stmts.map (Stmt.relocate mirror.move))) := by
  cases stmts with
  | nil => exact succeed id ()
  | cons stmt rest => exact bind (ih.execute stmt) fun _ => ih.executeAll rest

omit faithful in
private theorem repeatWhile_mirrored (condition : Expr) (body : Stmt) (post : Option Stmt) :
    Mirrored mirror id (repeatWhile (fuel + 1) condition body post)
      (repeatWhile (more + 1) (condition.relocate mirror.move) (body.relocate mirror.move)
        (post.map (Stmt.relocate mirror.move))) := by
  rw [repeatWhile, repeatWhile]
  refine bind (ih.evaluate condition) fun decision => ?_
  rw [Value.relocate_isTruthy]
  split
  · refine bind (goesOn (ih.execute body)) fun again => ?_
    have turn : ∀ again : Bool, Mirrored mirror id
        (if again then repeatWhile fuel condition body post else pure ())
        (if again then repeatWhile more (condition.relocate mirror.move) (body.relocate mirror.move)
          (post.map (Stmt.relocate mirror.move)) else pure ()) := by
      intro again
      split
      · exact ih.repeatWhile condition body post
      · exact succeed id ()
    cases again with
    | false => exact succeed id ()
    | true =>
      cases post with
      | none => exact bind (succeed id true) turn
      | some post => exact bind (goesOn (ih.execute post)) turn
  · exact succeed id ()

end

/-- The induction is on the fuel of both runs; only a lenient mirror lets one of them have more. -/
theorem runsMirror {mirror : Mirror} (faithful : mirror.Faithful) {fuel more : Nat} (enough : fuel ≤ more)
    (exact : mirror.lenient ∨ fuel = more) : RunsMirror mirror fuel more := by
  induction fuel generalizing more with
  | zero =>
    have spent : ∀ {α β : Type} (shown : α → β) {run : Run α} {other : Run β}, run = Run.outOfFuel →
        (0 = more → other = Run.outOfFuel) → Mirrored mirror shown run other := by
      intro α β shown run other stops stopsToo machine
      rw [stops]
      rcases exact with lenient | same
      · exact .inl lenient
      · rw [stopsToo same]
        exact .inr rfl
    constructor
    · exact fun expr => spent _ (evaluate.eq_1 expr) fun same => by rw [← same, evaluate]
    · exact fun exprs => spent _ (evaluateAll.eq_1 exprs) fun same => by rw [← same, evaluateAll]
    · exact fun callable arguments => spent _ (invoke.eq_1 callable arguments) fun same => by rw [← same, invoke]
    · exact fun stmt => spent _ (execute.eq_1 stmt) fun same => by rw [← same, execute]
    · exact fun stmts => spent _ (executeAll.eq_1 stmts) fun same => by rw [← same, executeAll]
    · exact fun condition body post =>
        spent _ (repeatWhile.eq_1 condition body post) fun same => by rw [← same, repeatWhile]
  | succ fuel ih =>
    cases more with
    | zero => omega
    | succ more =>
      have smaller : RunsMirror mirror fuel more := ih (by omega) (exact.imp id (by omega))
      exact ⟨evaluate_mirrored faithful smaller, evaluateAll_mirrored smaller, invoke_mirrored faithful smaller,
        execute_mirrored faithful smaller, executeAll_mirrored smaller, repeatWhile_mirrored smaller⟩

end Machine

namespace Mirror
open Run

def moreFuel : Mirror := ⟨id, id, True⟩

theorem moreFuel_faithful : moreFuel.Faithful := by
  have same : ∀ {α : Type} {shown : α → α} (run : Run α), (∀ result, shown result = result) →
      Mirrored moreFuel shown run run := by
    intro α shown run shows machine
    change Outcome.Mirrored moreFuel shown (run machine) (run machine)
    cases run machine with
    | value result after => exact congrArg (Outcome.value · after) (shows result).symm
    | interrupted cause after => exact ⟨cause, .refl_id cause, rfl⟩
    | outOfFuel => exact .inr rfl
  refine ⟨fun _ => rfl, fun _ => rfl, fun _ => rfl, fun _ _ => rfl, fun _ _ => rfl, fun text => same _ fun _ => rfl,
    same _ Value.relocate_id, same _ Value.relocate_id, fun parent => same _ fun _ => rfl, ?_, ?_,
    fun name => same _ Value.relocate_id, ?_, same _ fun _ => rfl, fun _ _ _ _ => same _ fun _ => rfl,
    fun _ _ => same _ fun _ => rfl⟩
  · intro name value
    have kept : value.relocate moreFuel.move = value := value.relocate_id
    rw [kept]
    exact same _ fun _ => rfl
  · intro frame bindings
    have kept : relocateBindings moreFuel.move bindings = bindings := relocateBindings_id bindings
    rw [kept]
    exact same _ fun _ => rfl
  · intro name value
    have kept : value.relocate moreFuel.move = value := value.relocate_id
    rw [kept]
    exact same _ fun _ => rfl

end Mirror

namespace Machine

/-- Fuel that sufficed suffices again when there is more of it. -/
theorem executeAll_more {fuel more : Nat} (enough : fuel ≤ more) {stmts : List Stmt} {before after : Machine}
    (ended : executeAll fuel stmts before = .value () after) : executeAll more stmts before = .value () after := by
  have shown := (runsMirror Mirror.moreFuel_faithful enough (.inl trivial)).executeAll stmts before
  rw [ended, show Mirror.moreFuel.move = id from rfl, Stmt.relocate_id_eq, List.map_id] at shown
  exact shown

theorem execute_more {fuel more : Nat} (enough : fuel ≤ more) {stmt : Stmt} {before after : Machine}
    (ended : execute fuel stmt before = .value () after) : execute more stmt before = .value () after := by
  have shown := (runsMirror Mirror.moreFuel_faithful enough (.inl trivial)).execute stmt before
  rw [ended, show Mirror.moreFuel.move = id from rfl, Stmt.relocate_id] at shown
  exact shown

end Machine
end Treewalk
