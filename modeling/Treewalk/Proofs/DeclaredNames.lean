import Treewalk.Proofs.HeldValues
import Treewalk.Proofs.RestoredFrames

/-! Which names a run can add to which frames. Frames keep the frames around them and the names that they bind. An
expression adds no name to a frame that was there before it, whatever it calls, and a statement adds only names
that it declares itself, to the frame in which it is executed. -/

namespace Treewalk

/-- The statement declares the name outside of its blocks and of the bodies of its functions. -/
inductive Stmt.Declares : Stmt → Bytes → Prop
  | variable (name : Token) (initial : Option Expr) : Declares (.declare name initial) name.lexeme
  | function (name : Token) (parameters : List Token) (body : List Stmt) :
      Declares (.function name parameters body) name.lexeme
  | consequence {condition : Expr} {consequence : Stmt} {alternative : Option Stmt} {pos : Position} {name : Bytes}
      (inside : Declares consequence name) : Declares (.branch condition consequence alternative pos) name
  | alternative {condition : Expr} {consequence alternative : Stmt} {pos : Position} {name : Bytes}
      (inside : Declares alternative name) : Declares (.branch condition consequence (some alternative) pos) name
  | body {condition : Expr} {body : Stmt} {post : Option Stmt} {pos : Position} {name : Bytes}
      (inside : Declares body name) : Declares (.loop condition body post pos) name
  | post {condition : Expr} {body post : Stmt} {pos : Position} {name : Bytes}
      (inside : Declares post name) : Declares (.loop condition body (some post) pos) name

/-- Names that are allowed were added to a frame, and nothing else became of it but for values. -/
structure Frame.Extends (allowed : Bytes → Prop) (before after : Frame) : Prop where
  outer : after.outer = before.outer
  names : ∃ added, after.names = before.names ++ added ∧ ∀ name ∈ added, allowed name

namespace Frame.Extends

variable {allowed : Bytes → Prop} {before middle after : Frame}

theorem refl (frame : Frame) : frame.Extends allowed frame :=
  ⟨rfl, [], (List.append_nil _).symm, nofun⟩

theorem trans (first : before.Extends allowed middle) (second : middle.Extends allowed after) :
    before.Extends allowed after := by
  obtain ⟨added, names, each⟩ := first.names
  obtain ⟨more, further, others⟩ := second.names
  refine ⟨second.outer.trans first.outer, added ++ more, ?_, ?_⟩
  · rw [further, names, List.append_assoc]
  · intro name member
    exact (List.mem_append.mp member).elim (each name) (others name)

theorem weaken {more : Bytes → Prop} (extension : before.Extends allowed after) (weaker : ∀ name, allowed name → more name) :
    before.Extends more after := by
  obtain ⟨outer, added, names, each⟩ := extension
  exact ⟨outer, added, names, fun name member => weaker name (each name member)⟩

end Frame.Extends

theorem bindName_names (name : Bytes) (value : Value) (bindings : List (Bytes × Value)) :
    (bindName name value bindings).map Prod.fst = bindings.map Prod.fst ∧ name ∈ bindings.map Prod.fst ∨
      (bindName name value bindings).map Prod.fst = bindings.map Prod.fst ++ [name] ∧ name ∉ bindings.map Prod.fst := by
  induction bindings with
  | nil => exact .inr ⟨rfl, List.not_mem_nil⟩
  | cons binding rest ih =>
    obtain ⟨other, old⟩ := binding
    rw [bindName]
    by_cases same : other = name
    · rw [if_pos (beq_iff_eq.mpr same), same]
      exact .inl ⟨rfl, List.mem_cons_self⟩
    · rw [if_neg (by simpa using same)]
      simp only [List.map_cons, List.mem_cons, List.cons_append]
      rcases ih with ⟨kept, bound⟩ | ⟨added, unbound⟩
      · exact .inl ⟨congrArg _ kept, .inr bound⟩
      · refine .inr ⟨congrArg _ added, ?_⟩
        rintro (rfl | bound)
        · exact same rfl
        · exact unbound bound

namespace Heap

/-- Every frame that was there is still there, and only the frame `here` has new names, which are declared. -/
def Grown (declared : Bytes → Prop) (here : FrameId) (before after : Heap) : Prop :=
  ∀ (frame : FrameId) (found : Frame), before.frames[frame]? = some found →
    ∃ later, after.frames[frame]? = some later ∧ found.Extends (fun name => frame = here ∧ declared name) later

namespace Grown

variable {declared : Bytes → Prop} {here : FrameId} {before middle after : Heap}

theorem refl (heap : Heap) : heap.Grown declared here heap :=
  fun _ found known => ⟨found, known, .refl found⟩

theorem trans (first : before.Grown declared here middle) (second : middle.Grown declared here after) :
    before.Grown declared here after := by
  intro frame found known
  obtain ⟨later, still, one⟩ := first frame found known
  obtain ⟨last, there, two⟩ := second frame later still
  exact ⟨last, there, one.trans two⟩

theorem weaken {more : Bytes → Prop} (grown : before.Grown declared here after)
    (weaker : ∀ name, declared name → more name) : before.Grown more here after := by
  intro frame found known
  obtain ⟨later, still, grows⟩ := grown frame found known
  exact ⟨later, still, grows.weaken fun name allowed => ⟨allowed.1, weaker name allowed.2⟩⟩

theorem absent (grown : before.Grown declared here after) {frame : FrameId} (missing : after.frames[frame]? = none) :
    before.frames[frame]? = none := by
  cases known : before.frames[frame]? with
  | none => rfl
  | some found =>
    obtain ⟨later, still, _⟩ := grown frame found known
    rw [missing] at still
    cases still

/-- Names that are added to a frame that was not there are of no account. -/
theorem inside {more : Bytes → Prop} {there : FrameId} (first : before.Grown declared here middle)
    (second : middle.Grown more there after) (fresh : before.frames[there]? = none) : before.Grown declared here after := by
  intro frame found known
  obtain ⟨later, still, one⟩ := first frame found known
  obtain ⟨last, kept, two⟩ := second frame later still
  refine ⟨last, kept, one.trans (two.weaken ?_)⟩
  rintro name ⟨rfl, _⟩
  rw [fresh] at known
  cases known

end Grown

variable {declared : Bytes → Prop} {here : FrameId}

/-- A name is bound that was bound before, or may be added. -/
theorem grown_bind {heap : Heap} {frame : FrameId} {name : Bytes} (value : Value)
    (allowed : ∀ found, heap.frames[frame]? = some found → name ∈ found.names ∨ frame = here ∧ declared name) :
    heap.Grown declared here (heap.define frame name value) := by
  intro other found known
  rw [frames_define]
  split
  next same =>
    subst same
    refine ⟨found.set name value, by rw [known]; rfl, rfl, ?_⟩
    rcases bindName_names name value found.bindings with ⟨kept, _⟩ | ⟨added, unbound⟩
    · exact ⟨[], by rw [List.append_nil]; exact kept, nofun⟩
    · refine ⟨[name], added, ?_⟩
      intro new member
      obtain rfl := List.mem_singleton.mp member
      exact (allowed found known).resolve_left unbound
  next => exact ⟨found, known, .refl found⟩

theorem grown_define (heap : Heap) {name : Bytes} (value : Value) (allowed : declared name) :
    heap.Grown declared here (heap.define here name value) :=
  grown_bind value fun _ _ => .inr ⟨rfl, allowed⟩

/-- A name that is assigned to was bound before. -/
theorem grown_assign {heap : Heap} {frame owner : FrameId} {name : Token} {search : FuzzySearch}
    (finds : heap.owner frame name search = .ok owner)
    (value : Value) : heap.Grown declared here (heap.define owner name.lexeme value) := by
  unfold Heap.owner at finds
  split at finds
  next => cases finds
  next bound =>
    cases finds
    obtain ⟨_, holder, holds, inside⟩ := findIn?_bound bound
    refine grown_bind value fun found known => .inl ?_
    obtain rfl : found = holder := Option.some.inj (known.symm.trans holds)
    exact List.mem_map_of_mem inside

theorem grown_alloc (heap : Heap) (parent : Option FrameId) : heap.Grown declared here (heap.alloc parent).2 := by
  intro frame found known
  have inside := (Array.getElem?_eq_some_iff.mp known).1
  refine ⟨found, ?_, .refl found⟩
  rw [frames_alloc, if_neg (Nat.ne_of_lt inside)]
  exact known

theorem grown_defineAll (heap : Heap) (bindings : List (Bytes × Value)) :
    heap.Grown (fun _ => True) here (heap.defineAll here bindings) := by
  induction bindings generalizing heap with
  | nil => exact .refl heap
  | cons binding rest ih => exact (grown_define heap binding.2 trivial).trans (ih _)

end Heap

namespace Machine
open Run

/-- A new frame with names of its own changes no other. -/
theorem opened_grown {declared : Bytes → Prop} {here : FrameId} (machine : Machine) (parent : FrameId)
    (bindings : List (Bytes × Value)) :
    machine.heap.Grown declared here (machine.opened parent bindings).heap ∧
      machine.heap.frames[(machine.opened parent bindings).frame]? = none := by
  have fresh : machine.heap.frames[machine.heap.frames.size]? = none := Array.getElem?_eq_none (Nat.le_refl _)
  exact ⟨(machine.heap.grown_alloc (some parent)).inside (Heap.grown_defineAll _ bindings) fresh, fresh⟩

/-- The names that a task may add to the current frame. -/
def Task.Declares : Task → Bytes → Prop
  | evaluate _, _ | evaluateAll _, _ | invoke _ _, _ => False
  | execute stmt, name => stmt.Declares name
  | executeAll stmts, name => ∃ stmt ∈ stmts, stmt.Declares name
  | repeatWhile _ body post, name => body.Declares name ∨ ∃ stmt ∈ post, stmt.Declares name

section

variable {declared : Bytes → Prop}

theorem evaluate_silent (expr : Expr) (name : Bytes) : (Task.evaluate expr).Declares name → declared name :=
  False.elim

theorem evaluateAll_silent (exprs : List Expr) (name : Bytes) : (Task.evaluateAll exprs).Declares name → declared name :=
  False.elim

theorem invoke_silent (callable : Callable) (arguments : List Value) (name : Bytes) :
    (Task.invoke callable arguments).Declares name → declared name :=
  False.elim

end

namespace Plan

variable {α : Type}

/-- A plan adds only declared names to the frame `here`. The tasks that it hands on are carried out there and declare
no others, or in a new frame. -/
def Grows (declared : Bytes → Prop) (here : FrameId) : Heap → Plan α → Prop
  | before, done outcome => ∀ after, outcome.after? = some after → before.Grown declared here after.heap
  | before, ask task machine next =>
    before.Grown declared here machine.heap ∧
    (machine.frame = here ∧ (∀ name, task.Declares name → declared name) ∨ before.frames[machine.frame]? = none) ∧
    ∀ ending after, after.frame = machine.frame → (next ending after).Grows declared here after.heap

variable {declared : Bytes → Prop} {here : FrameId} {before : Heap} {machine : Machine}

theorem grows_value (grown : before.Grown declared here machine.heap) (result : α) :
    (done (.value result machine)).Grows declared here before := by
  rintro _ ⟨⟩
  exact grown

theorem grows_interrupted (grown : before.Grown declared here machine.heap) (cause : Interrupt) :
    (done (.interrupted cause machine) : Plan α).Grows declared here before := by
  rintro _ ⟨⟩
  exact grown

theorem grows_ended (grown : before.Grown declared here machine.heap) (ending : Except Interrupt α) :
    (done (.ended ending machine)).Grows declared here before := by
  cases ending with
  | ok result => exact grows_value grown result
  | error cause => exact grows_interrupted grown cause

theorem grows_ofExcept (result : Except RuntimeError α) :
    (done (ofExcept result machine)).Grows declared here machine.heap := by
  cases result with
  | ok result => exact grows_value (.refl _) result
  | error error => exact grows_interrupted (.refl _) _

section

variable {task : Task} (stands : machine.frame = here) (within : ∀ name, task.Declares name → declared name)
include stands within

theorem grows_first {next : task.Result → Machine → Plan α}
    (goesOn : ∀ result after, after.frame = here → (next result after).Grows declared here after.heap) :
    (first task machine next).Grows declared here machine.heap := by
  refine ⟨.refl _, .inl ⟨stands, within⟩, fun ending after restored => ?_⟩
  cases ending with
  | ok result => exact goesOn result after (restored.trans stands)
  | error cause => exact grows_interrupted (.refl _) cause

theorem grows_last : (last task machine).Grows declared here machine.heap :=
  ⟨.refl _, .inl ⟨stands, within⟩, fun ending _ _ => grows_ended (.refl _) ending⟩

end
end Plan

open Plan

section

variable {declared : Bytes → Prop} {here : FrameId} {machine : Machine}

private theorem recorded_heap (machine : Machine) (event : TraceEvent) :
    (machine.recorded event).heap = machine.heap ∧ (machine.recorded event).frame = machine.frame := by
  unfold recorded
  split <;> exact ⟨rfl, rfl⟩

private theorem callPlan_grows (stands : machine.frame = here) (called : Value) (values : List Value) (paren : Token) :
    (callPlan called values paren machine).Grows declared here machine.heap := by
  unfold callPlan
  cases called.callable? with
  | none => exact grows_interrupted (.refl _) _
  | some callable =>
    dsimp only
    split
    · split
      · obtain ⟨heap, frame⟩ := recorded_heap { machine with depth := machine.depth + 1 }
          (.called callable.text values.length paren.pos.line (machine.depth + 1))
        refine ⟨?_, .inl ⟨frame.trans stands, invoke_silent callable values⟩, fun ending after _ => ?_⟩
        · rw [entered, heap]
          exact .refl _
        · cases ending with
          | ok result =>
            rintro _ ⟨⟩
            dsimp only
            rw [(recorded_heap after _).1]
            exact .refl _
          | error cause => exact grows_interrupted (.refl _) _
      · exact grows_interrupted (.refl _) _
    · exact grows_interrupted (.refl _) _

private theorem assign_grows (machine : Machine) (target : Token) (value : Value) :
    (done ((do Run.assign target value; return value : Run Value) machine)).Grows declared here machine.heap := by
  intro after ends
  change (andThen (Run.assign target value) (fun _ => succeed value) machine).after? = some after at ends
  unfold andThen Run.assign at ends
  cases found : machine.heap.owner machine.frame target machine.search with
  | ok owner =>
    rw [found] at ends
    cases ends
    exact Heap.grown_assign found value
  | error error =>
    rw [found] at ends
    cases ends
    exact .refl _

/-- An expression adds no name. -/
private theorem evaluatePlan_grows (stands : machine.frame = here) (expr : Expr) :
    (evaluatePlan machine expr).Grows declared here machine.heap := by
  cases expr with
  | literal value pos => exact grows_value (.refl _) _
  | name token =>
    intro after ends
    dsimp only [lookup] at ends
    split at ends <;> cases ends <;> exact .refl _
  | assign target value =>
    exact grows_first stands (evaluate_silent value) fun result after _ => assign_grows after target result
  | ternary condition one two =>
    refine grows_first stands (evaluate_silent condition) fun decision after stands => ?_
    split
    · exact grows_last stands (evaluate_silent one)
    · exact grows_last stands (evaluate_silent two)
  | logical left operator right =>
    refine grows_first stands (evaluate_silent left) fun result after stands => ?_
    split
    · exact grows_value (.refl _) result
    · exact grows_last stands (evaluate_silent right)
  | binary left operator right =>
    refine grows_first stands (evaluate_silent left) fun one after stands => ?_
    exact grows_first stands (evaluate_silent right) fun two after _ => grows_ofExcept _
  | unary operator operand => exact grows_first stands (evaluate_silent operand) fun _ _ _ => grows_ofExcept _
  | group inner => exact grows_last stands (evaluate_silent inner)
  | call callee paren arguments =>
    refine grows_first stands (evaluate_silent callee) fun called after stands => ?_
    refine grows_first stands (evaluateAll_silent arguments) fun values after stands => ?_
    exact callPlan_grows stands called values paren
  | hole => exact grows_interrupted (.refl _) _

private theorem evaluateAllPlan_grows (stands : machine.frame = here) (exprs : List Expr) :
    (evaluateAllPlan machine exprs).Grows declared here machine.heap := by
  cases exprs with
  | nil => exact grows_value (.refl _) []
  | cons expr rest =>
    refine grows_first stands (evaluate_silent expr) fun value after stands => ?_
    exact grows_first stands (evaluateAll_silent rest) fun values after _ => grows_value (.refl _) _

/-- The body of a function adds names to a frame of its own. -/
private theorem invokePlan_grows (stands : machine.frame = here) (callable : Callable) (arguments : List Value) :
    (invokePlan machine callable arguments).Grows declared here machine.heap := by
  cases callable with
  | function closure =>
    rw [invokePlan]
    split
    · obtain ⟨grown, fresh⟩ := machine.opened_grown closure.frame (closure.parameters.zip arguments)
      refine ⟨grown, .inr fresh, fun ending after _ => ?_⟩
      cases ending with
      | ok result => exact grows_value (.refl _) _
      | error cause => cases cause <;> first | exact grows_value (.refl _) _ | exact grows_interrupted (.refl _) _
    · exact grows_interrupted (.refl _) _
  | native builtin =>
    unfold invokePlan
    dsimp only
    split
    next value argument applies =>
      split
      · split
        · exact grows_last stands (invoke_silent _ _)
        · exact grows_value (.refl _) _
      · exact grows_value (.refl _) _
    next arguments _ _ others =>
      obtain ⟨ending, _, _, _, _, _, ends⟩ := native_outward builtin arguments others machine
      have ended : Machine.invoke 1 (.native builtin) arguments machine = .ended ending _ :=
        ends machine.heap machine.maxDepth
      rw [ended]
      exact grows_ended (.refl _) ending

private theorem turnEnded_grows {next : Machine → Plan Unit}
    (goesOn : (next machine).Grows declared here machine.heap) (ending : Except Interrupt Unit) :
    (turnEnded next ending machine).Grows declared here machine.heap := by
  cases ending with
  | ok result => exact goesOn
  | error cause =>
    cases cause with
    | continueLoop keyword => exact goesOn
    | breakLoop keyword => exact grows_value (.refl _) ()
    | returnValue keyword value | failure error | host fault => exact grows_interrupted (.refl _) _

private theorem repeatWhilePlan_grows (stands : machine.frame = here) (condition : Expr) (body : Stmt) (post : Option Stmt)
    (within : ∀ name, (Task.repeatWhile condition body post).Declares name → declared name) :
    (repeatWhilePlan machine condition body post).Grows declared here machine.heap := by
  have again : ∀ after, after.frame = here →
      (Plan.last (.repeatWhile condition body post) after).Grows declared here after.heap :=
    fun after stands => grows_last stands within
  refine grows_first stands (evaluate_silent condition) fun decision after stands => ?_
  split
  · refine ⟨.refl _, .inl ⟨stands, fun name inside => within name (.inl inside)⟩, fun ending turned restored => ?_⟩
    have stands := restored.trans stands
    refine turnEnded_grows ?_ ending
    cases post with
    | none => exact again turned stands
    | some stmt =>
      have declares : ∀ name, stmt.Declares name → declared name :=
        fun name inside => within name (.inr ⟨stmt, rfl, inside⟩)
      refine ⟨.refl _, .inl ⟨stands, declares⟩, fun ending last restored => ?_⟩
      exact turnEnded_grows (again last (restored.trans stands)) ending
  · exact grows_value (.refl _) ()

/-- A statement adds what it declares, and its blocks get frames of their own. -/
private theorem executePlan_grows (machine : Machine) (stmt : Stmt) :
    (executePlan machine stmt).Grows stmt.Declares machine.frame machine.heap := by
  cases stmt with
  | expression value => exact grows_first rfl (evaluate_silent value) fun _ _ _ => grows_value (.refl _) ()
  | print value =>
    refine grows_first rfl (evaluate_silent value) fun result after _ => ?_
    intro last ends
    rcases write_after ends with rfl | rfl <;> exact .refl _
  | declare name initial =>
    cases initial with
    | none => exact grows_value (machine.heap.grown_define _ (.variable name none)) ()
    | some initial =>
      refine grows_first rfl (evaluate_silent initial) fun value after stands => ?_
      rintro _ ⟨⟩
      rw [← stands]
      exact after.heap.grown_define value (.variable name (some initial))
  | block body pos =>
    obtain ⟨grown, fresh⟩ := machine.opened_grown machine.frame []
    exact ⟨grown, .inr fresh, fun ending _ _ => grows_ended (.refl _) ending⟩
  | branch condition consequence alternative pos =>
    refine grows_first rfl (evaluate_silent condition) fun decision after stands => ?_
    split
    · exact grows_last stands fun name inside => .consequence inside
    · cases alternative with
      | none => exact grows_value (.refl _) ()
      | some alternative => exact grows_last stands fun name inside => .alternative inside
  | loop condition body post pos =>
    refine grows_last rfl fun name inside => ?_
    rcases inside with inside | ⟨stmt, rfl, inside⟩
    · exact .body inside
    · exact .post inside
  | function name parameters body => exact grows_value (machine.heap.grown_define _ (.function name parameters body)) ()
  | returnValue keyword result =>
    cases result with
    | none => exact grows_interrupted (.refl _) _
    | some result => exact grows_first rfl (evaluate_silent result) fun _ _ _ => grows_interrupted (.refl _) _
  | breakLoop keyword | continueLoop keyword | hole => exact grows_interrupted (.refl _) _

private theorem executeAllPlan_grows (machine : Machine) (stmts : List Stmt) :
    (executeAllPlan machine stmts).Grows (Task.executeAll stmts).Declares machine.frame machine.heap := by
  cases stmts with
  | nil => exact grows_value (.refl _) ()
  | cons stmt rest =>
    refine grows_first rfl (fun name inside => ⟨stmt, List.mem_cons_self, inside⟩) fun _ after stands => ?_
    refine grows_last stands ?_
    rintro name ⟨other, member, inside⟩
    exact ⟨other, List.mem_cons_of_mem _ member, inside⟩

private theorem Task.plan_grows (task : Task) (machine : Machine) :
    (task.plan machine).Grows task.Declares machine.frame machine.heap := by
  cases task with
  | evaluate expr => exact evaluatePlan_grows rfl expr
  | evaluateAll exprs => exact evaluateAllPlan_grows rfl exprs
  | invoke callable arguments => exact invokePlan_grows rfl callable arguments
  | execute stmt => exact executePlan_grows machine stmt
  | executeAll stmts => exact executeAllPlan_grows machine stmts
  | repeatWhile condition body post => exact repeatWhilePlan_grows rfl condition body post fun _ => id

end

section

variable {α : Type} {declared : Bytes → Prop} {here : FrameId} {before : Heap} {fuel : Nat}

/-- The frame is put back behind a task, and only names that it may add were added to it. -/
private theorem ask_grown {task : Task} {machine after : Machine} {next : Except Interrupt task.Result → Machine → Plan α}
    {ending : Except Interrupt task.Result} (plan : (ask task machine next).Grows declared here before)
    (ends : task.run fuel machine = .ended ending after)
    (inside : machine.heap.Grown task.Declares machine.frame after.heap) :
    before.Grown declared here after.heap ∧ (next ending after).Grows declared here after.heap := by
  obtain ⟨grown, place, goesOn⟩ := plan
  -- What follows declares in the same frame again, since every task puts the frame back.
  have restored := task.run_changes (restored_allows none_restore) fuel machine after (by rw [ends, Outcome.after?_ended])
  refine ⟨?_, goesOn ending after restored.frame⟩
  rcases place with ⟨rfl, within⟩ | fresh
  · exact grown.trans (inside.weaken within)
  · -- The task was carried out in a frame that no one had before.
    exact grown.inside inside fresh

private theorem Plan.Grows.run {plan : Plan α} (grows : plan.Grows declared here before)
    (inside : ∀ task machine after, ((Task.run fuel task) machine).after? = some after →
      machine.heap.Grown task.Declares machine.frame after.heap)
    {after : Machine} (ends : (plan.run (Task.run fuel)).after? = some after) : before.Grown declared here after.heap := by
  induction plan generalizing before with
  | done outcome => exact grows after ends
  | ask task machine next ih =>
    rcases (task.run fuel machine).outOfFuel_or_ended with stops | ⟨ending, middle, ended⟩
    · rw [Plan.run_outOfFuel next stops] at ends
      cases ends
    · rw [Plan.run_ended next ended] at ends
      obtain ⟨grown, goesOn⟩ := ask_grown grows ended (inside task machine middle (by rw [ended, Outcome.after?_ended]))
      exact grown.trans (ih ending middle goesOn ends)

/-- However a task ends, only names that it declares were added, and only to the frame in which it was carried out. -/
theorem Task.run_grown (task : Task) {machine after : Machine} (ends : (task.run fuel machine).after? = some after) :
    machine.heap.Grown task.Declares machine.frame after.heap := by
  induction fuel generalizing task machine after with
  | zero =>
    rw [Task.run_zero] at ends
    cases ends
  | succ fuel ih =>
    rw [Task.run_succ] at ends
    exact (task.plan_grows machine).run (fun task machine after ends => ih task ends) ends

/-- A task that a plan comes to hand on is carried out in the same frame, or in one that was not there. -/
private theorem Plan.Grows.asked {plan : Plan α} {asked : Task} {point : Machine} (grows : plan.Grows declared here before)
    (asks : plan.Asks asked point) : before.Grown declared here point.heap ∧
      (point.frame = here ∧ (∀ name, asked.Declares name → declared name) ∨ before.frames[point.frame]? = none) := by
  induction asks generalizing before with
  | here task machine next => exact ⟨grows.1, grows.2.1⟩
  | @later task machine after next ending asked point ends _ ih =>
    obtain ⟨fuel, ended⟩ := ends
    obtain ⟨grown, goesOn⟩ := ask_grown grows ended (task.run_grown (by rw [ended, Outcome.after?_ended]))
    obtain ⟨further, place⟩ := ih goesOn
    exact ⟨grown.trans further, place.imp_right grown.absent⟩

/-- At every point of a run, only names that its task declares have been added. -/
theorem Reaches.grown {task reached : Task} {machine there : Machine} (reaches : Reaches task machine reached there) :
    machine.heap.Grown task.Declares machine.frame there.heap := by
  induction reaches with
  | start task machine => exact .refl _
  | ask asks _ ih =>
    obtain ⟨grown, place⟩ := (Task.plan_grows _ _).asked asks
    rcases place with ⟨same, within⟩ | fresh
    · rw [same] at ih
      exact grown.trans (ih.weaken within)
    · exact grown.inside ih fresh

end

/-- A frame keeps the names that it binds and the frames around it. An expression adds no name to it; a statement adds
only names that it declares, and only if it is executed there; and so it is at every point of a run. -/
theorem declarations_extend_current {machine : Machine} {frame : FrameId} {found : Frame}
    (known : machine.heap.frames[frame]? = some found) :
    (∀ fuel expr after, (evaluate fuel expr machine).after? = some after →
      ∃ later, after.heap.frames[frame]? = some later ∧ later.outer = found.outer ∧ later.names = found.names) ∧
    (∀ fuel stmt after, (execute fuel stmt machine).after? = some after →
      ∃ later, after.heap.frames[frame]? = some later ∧
        found.Extends (fun name => frame = machine.frame ∧ stmt.Declares name) later) ∧
    ∀ task reached there, Reaches task machine reached there →
      ∃ later, there.heap.frames[frame]? = some later ∧
        found.Extends (fun name => frame = machine.frame ∧ task.Declares name) later := by
  refine ⟨?_, ?_, ?_⟩
  · intro fuel expr after ends
    obtain ⟨later, still, outer, added, names, each⟩ := (Task.evaluate expr).run_grown ends frame found known
    refine ⟨later, still, outer, ?_⟩
    cases added with
    | nil => rw [names, List.append_nil]
    | cons name rest => exact (each name List.mem_cons_self).2.elim
  · intro fuel stmt after ends
    exact (Task.execute stmt).run_grown ends frame found known
  · intro task reached there reaches
    exact reaches.grown frame found known

/-- A choice that calls a function with a variable of its own, and then declares another one. -/
theorem calledFunction_extends_current :
    let paren : Token := { kind := .rightParen, lexeme := utf8 ')' }
    let call : Expr := .call (.name { kind := .identifier, lexeme := utf8 'f' }) paren []
    let stmt : Stmt := .branch call (.block [] {}) (some (.declare { kind := .identifier, lexeme := utf8 'y' } none)) {}
    ∃ (session : Session) (found : Frame) (after : Machine) (later : Frame),
      (Session.start {}).run 50 (.ofString "fn f() \x7b var x; \x7d") = some session ∧
      session.machine.heap.frames[session.machine.frame]? = some found ∧
      (execute 50 stmt session.machine).after? = some after ∧ after.heap.frames[session.machine.frame]? = some later ∧
      found.Extends stmt.Declares later ∧ later.names = found.names ++ [utf8 'y'] := by
  intro paren call stmt
  have facts : ((Session.start {}).run 50 (.ofString "fn f() \x7b var x; \x7d")).bind (fun session =>
      session.machine.heap.frames[session.machine.frame]?.bind fun found =>
        (execute 50 stmt session.machine).after?.bind fun after =>
          after.heap.frames[session.machine.frame]?.map fun later => later.names == found.names ++ [utf8 'y']) =
      some true := by
    decide +kernel
  obtain ⟨session, ran, facts⟩ := Option.bind_eq_some_iff.mp facts
  obtain ⟨found, known, facts⟩ := Option.bind_eq_some_iff.mp facts
  obtain ⟨after, ends, facts⟩ := Option.bind_eq_some_iff.mp facts
  obtain ⟨later, still, names⟩ := Option.map_eq_some_iff.mp facts
  obtain ⟨last, same, extension⟩ := (declarations_extend_current known).2.1 50 stmt after ends
  obtain rfl : later = last := Option.some.inj (still.symm.trans same)
  exact ⟨session, found, after, later, ran, known, ends, still, extension.weaken fun _ => And.right, beq_iff_eq.mp names⟩

end Machine
end Treewalk
