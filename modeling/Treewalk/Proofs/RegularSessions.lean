import Treewalk.Proofs.HeldValues
import Treewalk.Proofs.SessionSteps
import Treewalk.Proofs.ShownTrees

/-! Sessions in which only sources are run. All trees that such a session meets are sound, also those of
the functions that it has kept from earlier sources. So none of the branches is taken that are there for
trees made elsewhere, and every function gets the arguments that it takes. -/

namespace Treewalk

def Value.Sound : Value → Prop
  | callable (.function closure) => ∀ stmt ∈ closure.body, stmt.Sound
  | callable (.native builtin) => ∃ name, (name, builtin.arity, builtin.primitive) ∈ Machine.builtins
  | hollow | foreign | uninitialized => False
  | null | bool _ | number _ | string _ => True

/-- A failure of the outside world. -/
def HostFault.OfWorld : HostFault → Prop
  | custom _ | wrapping _ _ _ _ => True
  | failure | missingStatement | missingExpression | missingArgument => False

/-- The computation was not stopped by a hole, an operator without a meaning or a missing argument. -/
def Interrupt.Regular : Interrupt → Prop
  | failure ⟨_, .unknownOperator⟩ | failure ⟨_, .unknownUnaryOperator⟩ => False
  | failure ⟨_, .host fault⟩ => fault.OfWorld
  | host fault => fault.OfWorld
  | returnValue _ value => value.Sound
  | failure _ | breakLoop _ | continueLoop _ => True

namespace Machine

/-- The task is none that only a tree made elsewhere leads to. -/
def Task.Regular (machine : Machine) : Task → Prop
  | evaluate .hole => False
  | evaluate (.binary _ operator _) =>
    ∀ left right, Operator.binary operator left right ≠ .error ⟨operator, .unknownOperator⟩
  | evaluate (.unary operator _) => ∀ operand, Operator.unary operator operand ≠ .error ⟨operator, .unknownUnaryOperator⟩
  | evaluate (.call callee _ _) => ∀ called after, (Task.evaluate callee).Ends machine (.ok called) after → called ≠ .hollow
  | execute .hole => False
  | invoke (.function closure) arguments => arguments.length = closure.parameters.length
  | invoke (.native builtin) arguments => builtin.primitive = .clock ∨
    (builtin.primitive = .print ∨ builtin.primitive = .input) ∧ arguments.length = 1
  | evaluate _ | execute _ | evaluateAll _ | executeAll _ | repeatWhile _ _ _ => True

def sounding : Kinship where
  machine := Kinship.Alone Value.Sound fun _ => True
  handed _ := True
  value := Value.Sound
  expr := Expr.Sound
  stmt _ := Stmt.Sound
  fault := Interrupt.Regular
  raised := Interrupt.Regular
  leaves _ := Interrupt.Regular
  cut := False

private theorem name_regular {token : Token} {cause : Cause} (ofName : cause.OfName) :
    (Interrupt.failure ⟨token, cause⟩).Regular := by
  cases ofName <;> trivial

private theorem binary_regular {left right : Expr} {operator : Token} {one two : Value} {error : RuntimeError}
    (sound : (Expr.binary left operator right).Sound) (fails : Operator.binary operator one two = .error error) :
    (Interrupt.failure error).Regular := by
  obtain ⟨token, cause⟩ := error
  rcases (Operator.binary_error fails).2 with ofOperands | ⟨_, unknown⟩
  · cases ofOperands <;> trivial
  · exact absurd sound.spelled unknown

private theorem unary_regular {operand : Expr} {operator : Token} {value : Value} {error : RuntimeError}
    (sound : (Expr.unary operator operand).Sound) (fails : Operator.unary operator value = .error error) :
    (Interrupt.failure error).Regular := by
  obtain ⟨token, cause⟩ := error
  rcases (Operator.unary_error fails).2 with ofOperands | ⟨_, unknown⟩
  · cases ofOperands <;> trivial
  · exact absurd sound.spelled unknown

private theorem handed_regular (error : HostError) : error.interrupt.Regular := by
  cases error <;> trivial

/-- What a built-in function does with the arguments that it takes. -/
private theorem builtin_cases {builtin : Native} {arguments : List Value}
    (sound : (Value.callable (.native builtin)).Sound) (enough : builtin.arity = arguments.length) :
    builtin.primitive = .clock ∨
      (builtin.primitive = .print ∨ builtin.primitive = .input) ∧ ∃ argument, arguments = [argument] := by
  obtain ⟨name, listed⟩ := sound
  simp only [builtins, List.mem_cons, List.not_mem_nil, or_false, Prod.mk.injEq] at listed
  have single : builtin.arity = 1 → ∃ argument, arguments = [argument] := fun one =>
    List.length_eq_one_iff.mp (by omega)
  rcases listed with ⟨_, _, clock⟩ | ⟨_, arity, print⟩ | ⟨_, arity, input⟩
  · exact .inl clock
  · exact .inr ⟨.inl print, single arity⟩
  · exact .inr ⟨.inr input, single arity⟩

private theorem builtin_regular {builtin : Native} {arguments : List Value} {machine after : Machine} {cause : Interrupt}
    (sound : (Value.callable (.native builtin)).Sound) (enough : builtin.arity = arguments.length)
    (fails : invoke 1 (.native builtin) arguments machine = .interrupted cause after) : cause.Regular := by
  have possible := builtin_cases sound enough
  obtain ⟨id, name, arity, primitive⟩ := builtin
  dsimp only at possible
  rcases possible with rfl | ⟨rfl | rfl, argument, rfl⟩
  · cases fails
  · rcases bind_interrupted fails with refused | ⟨_, _, _, impossible⟩
    · obtain ⟨error, _, rfl⟩ := write_interrupted refused
      exact handed_regular error
    · cases impossible
  · rcases bind_interrupted fails with refused | ⟨_, _, _, broken⟩
    · obtain ⟨error, _, rfl⟩ := write_interrupted refused
      exact handed_regular error
    · obtain ⟨error, _, rfl⟩ := readLine_interrupted broken
      exact handed_regular error

private theorem atCall_regular {cause : Interrupt} (regular : cause.Regular) (paren : Token) :
    (cause.atCall paren).Regular := by
  cases cause with
  | failure error => exact regular
  | host fault =>
    rw [Interrupt.atCall]
    split <;> exact regular
  | breakLoop keyword | continueLoop keyword | returnValue keyword value => trivial

private theorem escaped_regular {cause : Interrupt} (regular : cause.Regular) : cause.escaped.Regular := by
  cases cause with
  | breakLoop keyword | continueLoop keyword | returnValue keyword value => trivial
  | failure error | host fault => exact regular

private theorem sounding_interrupts : sounding.KeepsInterrupts where
  name _ := name_regular
  target _ := name_regular
  operands := binary_regular
  operand := unary_regular
  call cause _ possible := by
    rcases possible with rfl | rfl | ⟨_, _, rfl⟩ <;> trivial
  missingExpression sound := sound.spelled.elim
  native sound enough _ stops := builtin_regular sound enough stops
  passed regular := regular
  shown _ regular := atCall_regular regular _
  refused _ _ := handed_regular _
  missingStatement sound := absurd rfl sound.filled
  breakLoop _ := trivial
  continueLoop _ := trivial
  returnValue _ sound := sound
  returned sound := sound
  thrown regular := regular
  unlooped regular _ _ := regular
  escaped regular _ := escaped_regular regular

private theorem sounding_trees : sounding.KeepsTrees where
  parts := Expr.Sound.parts
  exprs := Stmt.Sound.exprs
  stmts sound := sound.parts _
  constant constant := by cases constant <;> trivial
  closure _ _ sound := fun stmt inside => sound.parts .top (.body, stmt) (by simpa [Stmt.parts] using inside)
  body sound := sound

theorem sounding_lawful : sounding.Lawful :=
  ⟨sounding_trees, Kinship.Alone.keeps rfl, sounding_interrupts⟩

theorem sounding_alone {machine : Machine} (holds : machine.heap.Holds fun held => held.Sound ∨ held = .uninitialized) :
    sounding.machine machine machine :=
  ⟨rfl, holds, fun _ _ => trivial⟩

/-- Every point of a run of a sound tree is regular. -/
private theorem reached_regular {place : Place} {task reached : Task} {machine there : Machine}
    (sound : sounding.machine machine machine) (fits : sounding.Fits place task)
    (reaches : Reaches task machine reached there) : reached.Regular there := by
  obtain ⟨_, _, fits, still⟩ := sounding_lawful.reached reaches fits sound
  cases reached with
  | evaluate expr =>
    have sound : expr.Sound := fits
    cases expr with
    | hole => exact sound.spelled
    | binary left operator right =>
      intro one two fails
      exact binary_regular sound fails
    | unary operator operand =>
      intro value fails
      exact unary_regular sound fails
    | call callee paren arguments =>
      rintro called after ends rfl
      have known : sounding.Fits .top (.evaluate callee) := sound.parts callee List.mem_cons_self
      exact (sounding_lawful.ends ends known still).1
    | _ => trivial
  | execute stmt =>
    have sound : stmt.Sound := fits
    cases stmt with
    | hole => exact sound.filled rfl
    | _ => trivial
  | invoke callable arguments =>
    obtain ⟨known, _, enough⟩ := fits
    cases callable with
    | function closure => exact (Int.ofNat_inj.mp enough).symm
    | native builtin =>
      refine (builtin_cases known enough).imp_right (.imp_right ?_)
      rintro ⟨argument, rfl⟩
      rfl
  | evaluateAll exprs | executeAll stmts | repeatWhile condition body post => trivial

private theorem run_sound {place : Place} {task : Task} {fuel : Nat} {machine after : Machine}
    (sound : sounding.machine machine machine) (fits : sounding.Fits place task)
    (ends : (task.run fuel machine).after? = some after) : sounding.machine after after := by
  have outcomes := sounding_lawful.runs fuel fits sound
  generalize task.run fuel machine = outcome at outcomes ends
  cases outcomes with
  | value _ still | interrupted _ still =>
    cases ends
    exact still
  | outOfFuel => cases ends
  | cutOff never => exact never.elim

private theorem interpret_sound {fuel : Nat} {stmts : List Stmt} {machine after : Machine}
    (sound : sounding.machine machine machine) (trees : ∀ stmt ∈ stmts, stmt.Sound)
    (ends : (interpret fuel stmts machine).after? = some after) : sounding.machine after after := by
  have fits : sounding.Fits .top (.executeAll stmts) := trees
  have inside : ∀ last, (executeAll fuel stmts machine).after? = some last → sounding.machine last last :=
    fun _ ended => run_sound sound fits ended
  rw [interpret_fold] at ends
  generalize executeAll fuel stmts machine = outcome at ends inside
  cases outcome with
  | value _ last =>
    cases ends
    exact inside _ rfl
  | interrupted cause last =>
    cases ends
    exact ⟨rfl, (inside last rfl).2⟩
  | outOfFuel => cases ends

/-- A new machine holds its built-in functions and nothing else. -/
theorem start_holds_builtins {options : Options} (plain : options.hostFunctions = false) {held : Value → Prop}
    (listed : ∀ builtin : Native, (∃ name, (name, builtin.arity, builtin.primitive) ∈ builtins) →
      held (.callable (.native builtin))) : (start options).heap.Holds held := by
  have installed : ∀ (entries : List (String × Int × Primitive)) (machine : Machine), entries ⊆ builtins →
      machine.heap.Holds held → (entries.foldl install machine).heap.Holds held := by
    intro entries
    induction entries with
    | nil => exact fun _ _ holds => holds
    | cons entry rest ih =>
      intro machine within holds
      obtain ⟨here, later⟩ := List.cons_subset.mp within
      exact ih (machine.install entry) later (holds.define _ (listed _ ⟨entry.1, here⟩))
  simp only [start, plain]
  exact installed builtins (bare options) (List.Subset.refl _) (bare_holds options _)

theorem start_holds {options : Options} (plain : options.hostFunctions = false) :
    (start options).heap.Holds fun held => held.Sound ∨ held = .uninitialized :=
  start_holds_builtins plain fun _ listed => .inl listed

end Machine

namespace Session
open Machine

inductive Worked (options : Options) : Session → Prop where
  | start : Worked options (.start options)
  | run {session after : Session} {fuel : Nat} {source : Bytes} (before : Worked options session)
      (ends : session.run fuel source = some after) : Worked options after
  | evaluate {session after : Session} {fuel : Nat} {source : Bytes} {value : Option Value} (before : Worked options session)
      (ends : session.evaluate fuel source = some (value, after)) : Worked options after

private theorem perform_sound {α : Type} {session after : Session} {computation : Run α} {result : Except Interrupt α}
    (inside : ∀ machine, (computation session.machine).after? = some machine → sounding.machine machine machine)
    (ends : session.perform computation = some (result, after)) : sounding.machine after.machine after.machine := by
  obtain ⟨machine, ended, kept⟩ := perform_machine ends
  have sound := inside machine ended
  rw [kept]
  exact ⟨rfl, sound.2⟩

private theorem runStatements_sound {session after : Session} {fuel : Nat} {stmts : List Stmt} {result : Except Interrupt Unit}
    (sound : sounding.machine session.machine session.machine) (trees : ∀ stmt ∈ stmts, stmt.Sound)
    (ends : session.runStatements fuel stmts = some (result, after)) : sounding.machine after.machine after.machine :=
  perform_sound (fun _ interpreted => interpret_sound sound trees interpreted) ends

/-- A single expression of a source is sound. -/
theorem expression_sound {source : Bytes} {expr : Expr}
    (single : (Program.ofSource source).statements = [.expression expr]) : expr.Sound := by
  have sound := Program.ofSource_sound source (.expression expr) (by rw [single]; exact List.mem_cons_self)
  exact sound.exprs expr List.mem_cons_self

section

variable {session after : Session} {fuel : Nat} {source : Bytes}
  (sound : sounding.machine session.machine session.machine)
include sound

theorem run_stays_sound (ends : session.run fuel source = some after) : sounding.machine after.machine after.machine := by
  rcases run_cases ends with ⟨_, rfl⟩ | ⟨_, result, ran⟩
  · exact sound
  · exact runStatements_sound sound (Program.ofSource_sound source) ran

theorem evaluate_stays_sound {value : Option Value} (ends : session.evaluate fuel source = some (value, after)) :
    sounding.machine after.machine after.machine := by
  rcases evaluate_cases ends with ⟨_, rfl, _⟩ | ⟨_, ⟨expr, result, single, performed, _⟩ | ⟨result, ran, _⟩⟩
  · exact sound
  · have fits : sounding.Fits .top (.evaluate expr) := expression_sound single
    exact perform_sound (fun _ evaluated => run_sound sound fits evaluated) performed
  · exact runStatements_sound sound (Program.ofSource_sound source) ran

end

/-- What such a session holds was made from sources. -/
private theorem Worked.sound {options : Options} (plain : options.hostFunctions = false) {session : Session}
    (worked : Worked options session) : sounding.machine session.machine session.machine := by
  induction worked with
  | start => exact sounding_alone (start_holds plain)
  | run _ ends ih => exact run_stays_sound ih ends
  | evaluate _ ends ih => exact evaluate_stays_sound ih ends

/-- Programs that come from sources never come to what is there for other trees. -/
theorem sources_stay_regular {options : Options} (plain : options.hostFunctions = false) {session : Session}
    (worked : Worked options session) (source : Bytes) :
    (∀ stmt ∈ (Program.ofSource source).statements, ∀ text, stmt.Shows text → text ∉ placeholders) ∧
    (∀ reached there, Reaches (.executeAll (Program.ofSource source).statements) session.machine reached there →
      reached.Regular there) ∧
    (∀ fuel cause after, interpret fuel (Program.ofSource source).statements session.machine = .interrupted cause after →
      cause.Regular) ∧
    ∀ expr, (Program.ofSource source).statements = [.expression expr] →
      (∀ reached there, Reaches (.evaluate expr) session.machine reached there → reached.Regular there) ∧
      ∀ fuel cause after, Machine.evaluate fuel expr session.machine = .interrupted cause after → cause.Regular := by
  have sound := worked.sound plain
  have trees := Program.ofSource_sound source
  have fits : sounding.Fits .top (.executeAll (Program.ofSource source).statements) := trees
  refine ⟨fun stmt inside text shown => (trees stmt inside).shows shown,
    fun reached there => reached_regular sound fits, ?_, ?_⟩
  · intro fuel cause after stops
    obtain ⟨raised, last, ended, rfl, _⟩ := interpret_interrupted stops
    exact escaped_regular (sounding_lawful.stops id ended fits sound).1
  · intro expr single
    have known : sounding.Fits .top (.evaluate expr) := expression_sound single
    refine ⟨fun reached there => reached_regular sound known, fun fuel cause after stops => ?_⟩
    have ended : (Task.evaluate expr).run fuel session.machine = .interrupted cause after := stops
    exact (sounding_lawful.stops id ended known sound).1

/-- `fn f() { return "kept"; }` -/
def keptSource : Bytes :=
  .ofString "fn f() \x7b return \"kept\"; \x7d"

/-- `f();` in a session that has kept the function from the source before. -/
theorem keptFunction_stays_regular : ∃ session,
    (Session.start {}).run 50 keptSource = some session ∧ ({} : Options).hostFunctions = false ∧ Worked {} session ∧
    (∃ value after, session.evaluate 50 (.ofString "f();") = some (some value, after) ∧ value.text = .ofString "kept") ∧
    (∀ stmt ∈ (Program.ofSource (.ofString "f();")).statements, ∀ text, stmt.Shows text → text ∉ placeholders) ∧
    ∀ reached there, Reaches (.executeAll (Program.ofSource (.ofString "f();")).statements) session.machine reached there →
      reached.Regular there := by
  have yields : (((Session.start {}).run 50 keptSource).bind fun session =>
      (session.evaluate 50 (.ofString "f();")).bind fun result => result.1.map Value.text) = some (.ofString "kept") := by
    decide +kernel
  obtain ⟨session, ran, called⟩ := Option.bind_eq_some_iff.mp yields
  obtain ⟨⟨found, after⟩, evaluated, shown⟩ := Option.bind_eq_some_iff.mp called
  obtain ⟨value, rfl, text⟩ := Option.map_eq_some_iff.mp shown
  have worked : Worked {} session := .run .start ran
  obtain ⟨trees, regular, _⟩ := sources_stay_regular rfl worked (.ofString "f();")
  exact ⟨session, ran, rfl, worked, ⟨value, after, evaluated, text⟩, trees, regular⟩

end Session
end Treewalk
