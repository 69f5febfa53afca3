import Treewalk.Proofs.HeldValues

/-! Keywords that leave a loop or a function, and the places where they stand. An interrupt that a `break`,
`continue` or `return` raises gets no further than the loop or the function around it; where the text
has none around it, the keyword is reported. -/

namespace Treewalk

/-- The statement at a place holds another one, at its own place. -/
inductive Stmt.Encloses : Place → Stmt → Place → Stmt → Prop where
  | self (place : Place) (stmt : Stmt) : Encloses place stmt place stmt
  | part {place within : Place} {stmt inner : Stmt} {part : Place × Stmt} (inside : part ∈ stmt.parts place)
      (deeper : Encloses part.1 part.2 within inner) : Encloses place stmt within inner

theorem Stmt.Encloses.parts {place within : Place} {stmt inner : Stmt} (encloses : Encloses place stmt within inner)
    {part : Place × Stmt} (inside : part ∈ inner.parts within) : Encloses place stmt part.1 part.2 := by
  induction encloses with
  | self place stmt => exact .part inside (.self _ _)
  | part outside _ ih => exact .part outside (ih inside)

/-- Whatever a function holds stands in a function. -/
theorem Stmt.Encloses.inFunction {place within : Place} {stmt inner : Stmt} (encloses : Encloses place stmt within inner)
    (inside : place.inFunction = true) : within.inFunction = true := by
  induction encloses with
  | self place stmt => exact inside
  | @part place _ stmt _ part held _ ih =>
    refine ih ?_
    cases stmt <;> simp only [Stmt.parts, List.mem_cons, List.mem_map, List.not_mem_nil] at held
    case block body pos =>
      obtain ⟨_, _, rfl⟩ := held
      exact inside
    case branch condition consequence alternative pos =>
      rcases held with rfl | ⟨_, _, rfl⟩ <;> exact inside
    case loop condition body post pos =>
      rcases held with rfl | ⟨_, _, rfl⟩ <;> exact inside
    case function name parameters body =>
      obtain ⟨_, _, rfl⟩ := held
      rfl

/-- A `break` or a `continue` has a loop around it, and a `return` a function. -/
def Stmt.WellPlaced (place : Place) : Stmt → Prop
  | breakLoop _ | continueLoop _ => place.looped = true
  | returnValue _ _ => place.inFunction = true
  | _ => True

def Interrupt.IsSignal : Interrupt → Prop
  | breakLoop _ | continueLoop _ | returnValue _ _ => True
  | failure _ | host _ => False

namespace Machine

/-- The statement is one of the program, or of a function that the machine knows. -/
def Knows (machine : Machine) (program : List Stmt) (place : Place) (stmt : Stmt) : Prop :=
  (∃ outer ∈ program, outer.Encloses .top place stmt) ∨
  ∃ (frame : FrameId) (found : Frame) (name : Bytes) (closure : Closure), machine.heap.frames[frame]? = some found ∧
    (name, .callable (.function closure)) ∈ found.bindings ∧ ∃ outer ∈ closure.body, outer.Encloses .body place stmt

section

variable (known : Place → Stmt → Prop)

/-- What ends an expression or a call: no signal, and no keyword is reported but one that is known to
stand outside loops. -/
def Settles : Interrupt → Prop
  | .failure ⟨token, .misplacedBreak⟩ => ∃ place, place.looped = false ∧ known place (.breakLoop token)
  | .failure ⟨token, .misplacedContinue⟩ => ∃ place, place.looped = false ∧ known place (.continueLoop token)
  | .failure ⟨_, .misplacedReturn⟩ => False
  | .failure _ | .host _ => True
  | .breakLoop _ | .continueLoop _ | .returnValue _ _ => False

/-- What leaves a statement at a place. A signal is for a loop or a function around the place, unless its
keyword is known to have none around it. -/
def Leaves (value : Value → Prop) (place : Place) : Interrupt → Prop
  | .breakLoop keyword => place.looped = true ∨ ∃ place, place.looped = false ∧ known place (.breakLoop keyword)
  | .continueLoop keyword => place.looped = true ∨ ∃ place, place.looped = false ∧ known place (.continueLoop keyword)
  | .returnValue keyword result => value result ∧
    (place.inFunction = true ∨ ∃ place result, place.inFunction = false ∧ known place (.returnValue keyword result))
  | cause => Settles known cause

/-- A function of which every statement is known. -/
def KnownBody (value : Value) : Prop :=
  ∀ closure, value = .callable (.function closure) → ∀ stmt ∈ closure.body, known .body stmt

def placing : Kinship where
  machine := Kinship.Alone (KnownBody known) fun _ => True
  handed _ := True
  value := KnownBody known
  expr _ := True
  stmt := known
  fault := Settles known
  raised := Settles known
  leaves := Leaves known (KnownBody known)
  cut := False

end

section

variable {known : Place → Stmt → Prop}

private theorem name_settles {token : Token} {cause : Cause} (ofName : cause.OfName) :
    Settles known (.failure ⟨token, cause⟩) := by
  cases ofName <;> trivial

private theorem binary_settles {operator : Token} {left right : Value} {error : RuntimeError}
    (fails : Operator.binary operator left right = .error error) : Settles known (.failure error) := by
  obtain ⟨token, cause⟩ := error
  rcases (Operator.binary_error fails).2 with ofOperands | ⟨unknown, _⟩
  · cases ofOperands <;> trivial
  · cases unknown
    trivial

private theorem unary_settles {operator : Token} {operand : Value} {error : RuntimeError}
    (fails : Operator.unary operator operand = .error error) : Settles known (.failure error) := by
  obtain ⟨token, cause⟩ := error
  rcases (Operator.unary_error fails).2 with ofOperands | ⟨unknown, _⟩
  · cases ofOperands <;> trivial
  · cases unknown
    trivial

private theorem handed_settles (error : HostError) : Settles known error.interrupt := by
  cases error <;> trivial

private theorem native_settles {builtin : Native} {arguments : List Value} {machine after : Machine} {cause : Interrupt}
    (stops : invoke 1 (.native builtin) arguments machine = .interrupted cause after) : Settles known cause := by
  rcases native_interrupt stops with ⟨fault, _, rfl⟩ | ⟨error, _, rfl⟩ | ⟨_, text, rfl⟩
  · trivial
  · exact handed_settles error
  · trivial

private theorem atCall_settles {cause : Interrupt} (settles : Settles known cause) (paren : Token) :
    Settles known (cause.atCall paren) := by
  rcases atCall_cases cause paren with ⟨_, passed⟩ | ⟨fault, _, shown⟩
  · rw [passed]
    exact settles
  · rw [shown]
    trivial

private theorem settles_leaves {cause : Interrupt} (settles : Settles known cause) (value : Value → Prop) (place : Place) :
    Leaves known value place cause := by
  cases cause with
  | failure error | host fault => exact settles
  | breakLoop keyword | continueLoop keyword | returnValue keyword result => exact settles.elim

/-- A keyword that stands in a loop is for it; one that does not is known to stand outside loops. -/
private theorem looped_or_loose {place : Place} {stmt : Stmt} (stands : known place stmt) :
    place.looped = true ∨ ∃ place, place.looped = false ∧ known place stmt := by
  cases looped : place.looped with
  | true => exact .inl rfl
  | false => exact .inr ⟨place, looped, stands⟩

private theorem leaves_return {place : Place} {keyword : Token} {result : Option Expr} {value : Value}
    (stands : known place (.returnValue keyword result)) (body : KnownBody known value) :
    Leaves known (KnownBody known) place (.returnValue keyword value) := by
  refine ⟨body, ?_⟩
  cases inside : place.inFunction with
  | true => exact .inl rfl
  | false => exact .inr ⟨place, result, inside, stands⟩

private theorem leaves_unlooped {value : Value → Prop} {place : Place} {cause : Interrupt}
    (leaves : Leaves known value place.inLoop cause) (noBreak : ∀ keyword, cause ≠ .breakLoop keyword)
    (noContinue : ∀ keyword, cause ≠ .continueLoop keyword) : Leaves known value place cause := by
  cases cause with
  | breakLoop keyword => exact absurd rfl (noBreak keyword)
  | continueLoop keyword => exact absurd rfl (noContinue keyword)
  | returnValue keyword result | failure error | host fault => exact leaves

/-- Outside loops, what leaves a statement and is not for a function settles. -/
private theorem leaves_escaped {value : Value → Prop} {place : Place} {cause : Interrupt}
    (leaves : Leaves known value place cause) (loose : place.looped = false)
    (noReturn : ∀ keyword result, cause ≠ .returnValue keyword result) : Settles known cause.escaped := by
  cases cause with
  | breakLoop keyword | continueLoop keyword => exact leaves.resolve_left (ne_true_of_eq_false loose)
  | returnValue keyword result => exact absurd rfl (noReturn keyword result)
  | failure error | host fault => exact leaves

private theorem placing_interrupts : (placing known).KeepsInterrupts where
  name _ := name_settles
  target _ := name_settles
  operands _ := binary_settles
  operand _ := unary_settles
  call cause _ possible := by
    rcases possible with rfl | rfl | ⟨_, _, rfl⟩ <;> trivial
  missingExpression _ := trivial
  native _ _ _ stops := native_settles stops
  passed settles := settles
  shown _ settles := atCall_settles settles _
  refused _ _ := settles_leaves (handed_settles _) _ _
  missingStatement _ := trivial
  breakLoop := looped_or_loose
  continueLoop := looped_or_loose
  returnValue := leaves_return
  returned leaves := leaves.1
  thrown settles := settles_leaves settles _ _
  unlooped := leaves_unlooped
  escaped leaves noReturn := leaves_escaped leaves rfl noReturn

theorem placing_lawful (closed : ∀ place stmt, known place stmt → ∀ part ∈ stmt.parts place, known part.1 part.2) :
    (placing known).Lawful where
  toKeepsInterrupts := placing_interrupts
  toKeepsMachines := Kinship.Alone.keeps rfl
  toKeepsTrees := {
    parts _ _ _ := trivial
    exprs _ _ _ := trivial
    stmts := closed _ _
    constant constant := by
      rintro closure rfl
      cases constant
    closure _ _ stands := by
      rintro _ ⟨⟩ stmt inside
      exact closed _ _ stands (.body, stmt) (by simpa [Stmt.parts] using inside)
    body body := body _ rfl }

end

private theorem knows_closed (machine : Machine) (program : List Stmt) :
    ∀ place stmt, machine.Knows program place stmt → ∀ part ∈ stmt.parts place, machine.Knows program part.1 part.2 := by
  rintro place stmt (⟨outer, inside, encloses⟩ | ⟨frame, found, name, closure, there, bound, outer, inside, encloses⟩) part within
  · exact .inl ⟨outer, inside, encloses.parts within⟩
  · exact .inr ⟨frame, found, name, closure, there, bound, outer, inside, encloses.parts within⟩

private theorem knows_alone (machine : Machine) (program : List Stmt) :
    (placing (machine.Knows program)).machine machine machine := by
  refine ⟨rfl, ?_, fun _ _ => trivial⟩
  rintro frame found there ⟨name, value⟩ bound
  refine .inl ?_
  rintro closure rfl stmt inside
  exact .inr ⟨frame, found, name, closure, there, bound, stmt, inside, .self _ _⟩

theorem settles_no_signal {known : Place → Stmt → Prop} {cause : Interrupt} (settles : Settles known cause) :
    ¬cause.IsSignal := by
  cases cause with
  | failure error | host fault => exact id
  | breakLoop keyword | continueLoop keyword | returnValue keyword result => exact settles.elim

/-- The interrupt of a statement that becomes an error at the top level. -/
private theorem interpret_leaves {fuel : Nat} {program : List Stmt} {machine after : Machine} {error : RuntimeError}
    (fails : interpret fuel program machine = .interrupted (.failure error) after) : ∃ cause,
      Leaves (machine.Knows program) (KnownBody (machine.Knows program)) .top cause ∧ cause.escaped = .failure error := by
  have fits : (placing (machine.Knows program)).Fits .top (.executeAll program) :=
    fun stmt inside => .inl ⟨stmt, inside, .self _ _⟩
  obtain ⟨cause, last, stops, escapes, _⟩ := interpret_interrupted fails
  have lawful := placing_lawful (knows_closed machine program)
  exact ⟨cause, (lawful.stops id stops fits (knows_alone machine program)).1, escapes.symm⟩

section

variable {machine after : Machine} {fuel : Nat} {program : List Stmt} {token : Token}

/-- Of the errors that are reported, only those of a `return` may come from a signal for a function. -/
private theorem reported_settles {error : RuntimeError}
    (fails : interpret fuel program machine = .interrupted (.failure error) after) (other : error.cause ≠ .misplacedReturn) :
    Settles (machine.Knows program) (.failure error) := by
  obtain ⟨cause, leaves, escapes⟩ := interpret_leaves fails
  rw [← escapes]
  refine leaves_escaped leaves rfl ?_
  rintro keyword result rfl
  cases escapes
  exact other rfl

private theorem return_reported
    (fails : interpret fuel program machine = .interrupted (.failure ⟨token, .misplacedReturn⟩) after) :
    ∃ place result, place.inFunction = false ∧ ∃ stmt ∈ program, stmt.Encloses .top place (.returnValue token result) := by
  obtain ⟨cause, leaves, escapes⟩ := interpret_leaves fails
  cases cause <;> cases escapes
  · obtain ⟨place, result, outside, inProgram | ⟨_, _, _, closure, _, _, outer, _, encloses⟩⟩ :=
      leaves.2.resolve_left Bool.false_ne_true
    · exact ⟨place, result, outside, inProgram⟩
    · exact absurd (outside.symm.trans (encloses.inFunction rfl)) Bool.false_ne_true
  · exact leaves.elim

end

section

variable {fuel : Nat} {machine after : Machine} {cause : Interrupt}

/-- Where every statement is known, what a fitting task ends with is as the kinship says. -/
private theorem placed_causes {task : Task} (fits : (placing fun _ _ => True).Fits .top task)
    (stops : task.run fuel machine = .interrupted cause after) : (placing fun _ _ => True).Causes .top task cause := by
  have lawful : (placing fun _ _ => True).Lawful := placing_lawful fun _ _ _ _ _ => trivial
  have alone : (placing fun _ _ => True).machine machine machine :=
    ⟨rfl, fun _ _ _ _ _ => .inl fun _ _ _ _ => trivial, fun _ _ => trivial⟩
  exact (lawful.stops id stops fits alone).1

theorem evaluate_unsignaled {expr : Expr} (stops : evaluate fuel expr machine = .interrupted cause after) :
    ¬cause.IsSignal := by
  have fits : (placing fun _ _ => True).Fits .top (.evaluate expr) := trivial
  have settles : Settles (fun _ _ => True) cause := placed_causes fits stops
  exact settles_no_signal settles

/-- A callee ends with a result or an error. -/
theorem invoke_unsignaled {callable : Callable} {arguments : List Value} (enough : callable.arity = arguments.length)
    (stops : invoke fuel callable arguments machine = .interrupted cause after) : ¬cause.IsSignal := by
  have fits : (placing fun _ _ => True).Fits .top (.invoke callable arguments) :=
    ⟨fun _ _ _ _ => trivial, fun _ _ _ _ _ _ => trivial, enough⟩
  have settles := placed_causes fits stops
  change ite _ _ _ at settles
  have settled : Settles (fun _ _ => True) cause := by
    split at settles <;> exact settles
  exact settles_no_signal settled

end

/-- Signals stay inside the construct that they belong to, and only keywords that are misplaced in the
text are reported. -/
theorem signals_stay_inside (fuel : Nat) (machine : Machine) :
    (∀ expr cause after, evaluate fuel expr machine = .interrupted cause after → ¬cause.IsSignal) ∧
    (∀ closure arguments cause after, invoke fuel (.function closure) arguments machine = .interrupted cause after →
      ¬cause.IsSignal) ∧
    (∀ program token after, interpret fuel program machine = .interrupted (.failure ⟨token, .misplacedBreak⟩) after →
      ∃ place, place.looped = false ∧ machine.Knows program place (.breakLoop token)) ∧
    (∀ program token after, interpret fuel program machine = .interrupted (.failure ⟨token, .misplacedContinue⟩) after →
      ∃ place, place.looped = false ∧ machine.Knows program place (.continueLoop token)) ∧
    (∀ program token after, interpret fuel program machine = .interrupted (.failure ⟨token, .misplacedReturn⟩) after →
      ∃ place result, place.inFunction = false ∧
        ∃ stmt ∈ program, stmt.Encloses .top place (.returnValue token result)) ∧
    ∀ program, (∀ place stmt, machine.Knows program place stmt → stmt.WellPlaced place) →
      ∀ error after, interpret fuel program machine = .interrupted (.failure error) after →
        error.cause ≠ .misplacedBreak ∧ error.cause ≠ .misplacedContinue ∧ error.cause ≠ .misplacedReturn := by
  refine ⟨?_, ?_, ?_, ?_, ?_, ?_⟩
  · intro expr cause after stops
    exact evaluate_unsignaled stops
  · intro closure arguments cause after stops
    by_cases enough : closure.parameters.length = arguments.length
    · have fits : (Callable.function closure).arity = arguments.length := Int.ofNat_inj.mpr enough
      exact invoke_unsignaled fits stops
    · cases fuel with
      | zero => cases stops
      | succ fuel =>
        rw [invoke, if_neg enough] at stops
        cases stops
        exact id
  · intro program token after fails
    exact reported_settles fails Cause.noConfusion
  · intro program token after fails
    exact reported_settles fails Cause.noConfusion
  · intro program token after fails
    exact return_reported fails
  · rintro program placed ⟨token, cause⟩ after fails
    refine ⟨?_, ?_, ?_⟩ <;> rintro rfl
    · obtain ⟨place, loose, known⟩ := reported_settles fails Cause.noConfusion
      exact absurd (loose.symm.trans (placed place _ known)) Bool.false_ne_true
    · obtain ⟨place, loose, known⟩ := reported_settles fails Cause.noConfusion
      exact absurd (loose.symm.trans (placed place _ known)) Bool.false_ne_true
    · obtain ⟨place, result, outside, known⟩ := return_reported fails
      exact absurd (outside.symm.trans (placed place _ (.inl known))) Bool.false_ne_true

/-- `fn f() { break; }` -/
def breakInBody : List Stmt :=
  [.function { kind := .identifier, lexeme := utf8 'f' } [] [.breakLoop default]]

/-- `while (true) f();` -/
def callInLoop : List Stmt :=
  let name : Token := { kind := .identifier, lexeme := utf8 'f' }
  [.loop (.literal (.bool true) {}) (.expression (.call (.name name) default [])) none {}]

/-- `fn f() { break; } while (true) f();` -/
def breakInCallee : List Stmt :=
  breakInBody ++ callInLoop

/-- `while (true) break;` -/
def breakInLoop : List Stmt :=
  [.loop (.literal (.bool true) {}) (.breakLoop default) none {}]

/-- A loop around a statement without parts is well placed if that statement is. -/
private theorem loop_wellPlaced {condition : Expr} {body stmt : Stmt} {pos : Position} {place : Place}
    (encloses : (Stmt.loop condition body none pos).Encloses .top place stmt) (single : body.parts Place.top.inLoop = [])
    (placed : body.WellPlaced Place.top.inLoop) : stmt.WellPlaced place := by
  cases encloses with
  | self => trivial
  | part held deeper =>
    cases List.mem_singleton.mp held
    cases deeper with
    | self => exact placed
    | part inner _ =>
      rw [single] at inner
      cases inner

theorem breakInCallee_reported :
    (∃ after, interpret 20 breakInCallee (start {}) = .interrupted (.failure ⟨default, .misplacedBreak⟩) after) ∧
    (∃ place, place.looped = false ∧ (start {}).Knows breakInCallee place (.breakLoop default)) ∧
    (∀ place stmt, (bare {}).Knows breakInLoop place stmt → stmt.WellPlaced place) ∧
    ∀ error after, interpret 20 breakInLoop (bare {}) = .interrupted (.failure error) after → error.cause ≠ .misplacedBreak := by
  have fails : (interpret 20 breakInCallee (start {})).error? = some ⟨default, .misplacedBreak⟩ := by decide +kernel
  obtain ⟨after, fails⟩ := Outcome.of_error? fails
  have placed : ∀ place stmt, (bare {}).Knows breakInLoop place stmt → stmt.WellPlaced place := by
    rintro place stmt (⟨outer, inside, encloses⟩ | ⟨frame, found, name, closure, there, bound, _⟩)
    · cases List.mem_singleton.mp inside
      exact loop_wellPlaced encloses rfl rfl
    · exact (bare_holds {} (fun _ => False) frame found there _ bound).elim
  obtain ⟨_, _, reported, _⟩ := signals_stay_inside 20 (start {})
  obtain ⟨_, _, _, _, _, never⟩ := signals_stay_inside 20 (bare {})
  exact ⟨⟨after, fails⟩, reported breakInCallee default after fails, placed,
    fun error after stops => (never breakInLoop placed error after stops).1⟩

/-- Where a function is kept from before, a program is told of a `break` that is not its own. -/
theorem keptBreak_reported : ∃ kept, interpret 20 breakInBody (start {}) = .value () kept ∧
    (∀ outer ∈ callInLoop, ∀ place stmt, outer.Encloses .top place stmt → stmt.WellPlaced place) ∧
    ∃ after, interpret 20 callInLoop kept = .interrupted (.failure ⟨default, .misplacedBreak⟩) after := by
  refine ⟨_, rfl, ?_, ?_⟩
  · intro outer inside place stmt encloses
    cases List.mem_singleton.mp inside
    exact loop_wellPlaced encloses rfl trivial
  · refine Outcome.of_error? ?_
    decide +kernel

end Machine
end Treewalk
