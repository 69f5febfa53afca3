import Treewalk.Proofs.RestoredFrames
import Treewalk.Proofs.RunKinship

/-! The limit on nested calls. Two runs under different limits go the same way until a call exceeds the
lower one. That call ends the run under the lower limit, and the other run only writes more behind what
both have written. -/

namespace Treewalk.Machine

theorem Wrote.text_begins {before after : Machine} (wrote : Wrote before after) :
    before.output.text <+: after.output.text := by
  obtain ⟨texts, written⟩ := wrote.printed
  rw [Output.text, Output.text, written, List.flatMap_append]
  exact List.prefix_append _ _

def limiting (lower upper : Nat) : Kinship where
  machine a b := b = { a with maxDepth := upper } ∧ a.maxDepth = lower ∧ a.depth ≤ lower
  handed _ := True
  value _ := True
  expr _ := True
  stmt _ _ := True
  fault _ := True
  raised _ := True
  leaves _ _ := True
  cut := True

section

variable {lower upper : Nat} (below : lower ≤ upper)
include below

private theorem limiting_lawful : (limiting lower upper).Lawful := by
  constructor
  case toKeepsTrees => constructor <;> intros <;> trivial
  case toKeepsInterrupts => constructor <;> intros <;> trivial
  constructor
  all_goals intro a b
  case same =>
    rintro ⟨rfl, _⟩
    rfl
  case handsOver =>
    intros
    trivial
  case outside =>
    rintro input output trace nextId ticks ⟨rfl, limit, depth⟩ _
    exact ⟨rfl, limit, depth⟩
  case room =>
    rintro ⟨rfl, limit, _⟩ room
    exact Nat.lt_of_lt_of_le (limit ▸ room) below
  case full =>
    intros
    trivial
  case enter =>
    rintro ⟨rfl, limit, _⟩ room
    exact ⟨rfl, limit, Nat.succ_le_of_lt (limit ▸ room)⟩
  case leave =>
    rintro ⟨rfl, limit, depth⟩
    exact ⟨rfl, limit, Nat.le_trans (Nat.sub_le _ _) depth⟩
  case lookup | owner =>
    rintro name ⟨rfl, _⟩
    rfl
  case found =>
    intros
    trivial
  case assign =>
    rintro name owner value ⟨rfl, limit, depth⟩ _ _
    exact ⟨rfl, limit, depth⟩
  case define =>
    rintro value name ⟨rfl, limit, depth⟩ _
    exact ⟨rfl, limit, depth⟩
  case opened =>
    rintro parent bindings ⟨rfl, limit, depth⟩ _ _
    exact ⟨rfl, limit, depth⟩
  case back =>
    rintro c d ⟨rfl, _⟩ ⟨rfl, limit, depth⟩
    exact ⟨rfl, limit, depth⟩

private theorem limiting_outcomes (fuel : Nat) (stmts : List Stmt) {a b : Machine}
    (akin : (limiting lower upper).machine a b) : (limiting lower upper).Outcomes (fun _ => True) (fun _ => True)
      (executeAll fuel stmts a) (executeAll fuel stmts b) :=
  have fits : (limiting lower upper).Fits .top (.executeAll stmts) := fun _ _ => trivial
  (limiting_lawful below).runs fuel fits akin

/-- A run that stays below the lower limit does not notice it. -/
private theorem interpret_under {fuel : Nat} {stmts : List Stmt} {a b after : Machine} {ending : Except Interrupt Unit}
    (akin : (limiting lower upper).machine a b) (ends : interpret fuel stmts a = .ended ending after)
    (calm : ∀ paren, ending ≠ .error (.failure ⟨paren, .stackOverflow⟩)) :
    interpret fuel stmts b = .ended ending { after with maxDepth := upper } := by
  have outcomes := limiting_outcomes below fuel stmts akin
  rw [interpret_fold] at ends ⊢
  generalize executeAll fuel stmts a = outcome, executeAll fuel stmts b = other at outcomes ends
  cases outcomes with
  | value _ still =>
    obtain ⟨rfl, _, _⟩ := still
    cases ending <;> cases ends
    rfl
  | interrupted _ still =>
    obtain ⟨rfl, _, _⟩ := still
    cases ending <;> cases ends
    rfl
  | outOfFuel => exact absurd ends.symm (Outcome.ended_ne_outOfFuel ending after)
  | @cutOff paren =>
    cases ending <;> cases ends
    exact absurd rfl (calm paren)

end

/-- How the statements of a program end when the program does. -/
private theorem executeAll_ended {fuel : Nat} {stmts : List Stmt} {machine after : Machine} {ending : Except Interrupt Unit}
    (ends : interpret fuel stmts machine = .ended ending after) : ∃ ended last,
      (Task.executeAll stmts).run fuel machine = .ended ended last ∧ after.output = last.output ∧
      ∀ paren, ending = .error (.failure ⟨paren, .stackOverflow⟩) → ended = ending := by
  rw [interpret_fold] at ends
  change ∃ ended last, executeAll fuel stmts machine = _ ∧ _
  generalize executeAll fuel stmts machine = outcome at ends
  cases outcome with
  | value _ last =>
    cases ending <;> cases ends
    exact ⟨.ok (), _, rfl, rfl, fun _ _ => rfl⟩
  | interrupted cause last =>
    cases ending <;> cases ends
    refine ⟨.error cause, last, rfl, rfl, fun paren overflow => ?_⟩
    cases cause <;> cases overflow
    rfl
  | outOfFuel => exact absurd ends.symm (Outcome.ended_ne_outOfFuel ending after)

section

variable {lower upper : Nat} (below : lower ≤ upper)
include below

/-- What was written until the lower limit was exceeded is written under the upper one, too. -/
private theorem overflow_begins {fuel more : Nat} {stmts : List Stmt} {a b after other : Machine} {paren : Token}
    {ending : Except Interrupt Unit} (akin : (limiting lower upper).machine a b)
    (overflows : interpret fuel stmts a = .interrupted (.failure ⟨paren, .stackOverflow⟩) after)
    (ends : interpret more stmts b = .ended ending other) : after.output.text <+: other.output.text := by
  have fails : interpret fuel stmts a = .ended (.error (.failure ⟨paren, .stackOverflow⟩)) after := overflows
  obtain ⟨_, last, first, sameFirst, overflow⟩ := executeAll_ended fails
  obtain ⟨ended, final, second, sameSecond, _⟩ := executeAll_ended ends
  obtain ⟨enough, first, second⟩ := Task.Ends.together ⟨fuel, first⟩ ⟨more, second⟩
  have outcomes := limiting_outcomes below enough stmts akin
  change (limiting lower upper).Outcomes _ _ ((Task.executeAll stmts).run enough a) ((Task.executeAll stmts).run enough b) at outcomes
  rw [first, second, overflow paren rfl] at outcomes
  rw [sameFirst, sameSecond]
  cases ended with
  | ok _ =>
    cases outcomes with
    | cutOff _ wrote => exact (wrote final rfl).text_begins
  | error cause =>
    cases outcomes with
    | interrupted _ still =>
      obtain ⟨rfl, _, _⟩ := still
      exact List.prefix_refl _
    | cutOff _ wrote => exact (wrote final rfl).text_begins

end

section

variable {limit : Nat} {place : Place} {task reached : Task} {machine there : Machine}
  (fits : (limiting limit limit).Fits place task) (akin : (limiting limit limit).machine machine machine)
  (reaches : Reaches task machine reached there)
include fits akin reaches

/-- At every point of a run the calls under way are within the limit. -/
private theorem reached_within : there.maxDepth = limit ∧ there.depth ≤ limit := by
  obtain ⟨_, _, _, still⟩ := (limiting_lawful (Nat.le_refl limit)).reached reaches fits akin
  exact still.2

private theorem called_within {paren : Token} {point : Machine} (calls : Calls reached there paren point) :
    point.maxDepth = limit ∧ point.depth ≤ limit := by
  have lawful := limiting_lawful (Nat.le_refl limit)
  obtain ⟨_, _, _, still⟩ := lawful.reached reaches fits akin
  obtain ⟨callee, arguments, called, values, callable, middle, rfl, first, second, _⟩ := calls
  have known : (limiting limit limit).Fits .top (.evaluate callee) := trivial
  have others : (limiting limit limit).Fits .top (.evaluateAll arguments) := fun _ _ => trivial
  obtain ⟨_, _, still⟩ := lawful.ends first known still
  obtain ⟨_, _, still⟩ := lawful.ends second others still
  exact still.2

end

/-- The limit on nested calls only cuts runs off. -/
theorem limit_only_cuts_off (stmts : List Stmt) (machine : Machine) (idle : machine.depth = 0) {lower upper : Nat}
    (below : lower ≤ upper) :
    (∀ fuel ending after, interpret fuel stmts { machine with maxDepth := lower } = .ended ending after →
      (∀ paren, ending ≠ .error (.failure ⟨paren, .stackOverflow⟩)) →
      interpret fuel stmts { machine with maxDepth := upper } = .ended ending { after with maxDepth := upper }) ∧
    (∀ fuel paren after, interpret fuel stmts { machine with maxDepth := lower } =
        .interrupted (.failure ⟨paren, .stackOverflow⟩) after →
      ∀ more ending other, interpret more stmts { machine with maxDepth := upper } = .ended ending other →
      after.output.text <+: other.output.text) ∧
    (∀ reached there, Reaches (.executeAll stmts) { machine with maxDepth := lower } reached there →
      there.depth ≤ lower ∧ there.maxDepth = lower ∧
      ∀ ending after, reached.Ends there ending after → after.depth = there.depth) ∧
    ∀ paren, (∃ fuel after, interpret fuel stmts { machine with maxDepth := lower } =
        .interrupted (.failure ⟨paren, .stackOverflow⟩) after) ↔
      ∃ reached there point, Reaches (.executeAll stmts) { machine with maxDepth := lower } reached there ∧
        Calls reached there paren point ∧ point.depth = lower := by
  have akin : (limiting lower upper).machine { machine with maxDepth := lower } { machine with maxDepth := upper } :=
    ⟨rfl, rfl, idle ▸ Nat.zero_le lower⟩
  have alone : (limiting lower lower).machine { machine with maxDepth := lower } { machine with maxDepth := lower } :=
    ⟨rfl, rfl, idle ▸ Nat.zero_le lower⟩
  have fits : (limiting lower lower).Fits .top (.executeAll stmts) := fun _ _ => trivial
  refine ⟨?_, ?_, ?_, ?_⟩
  · intro fuel ending after ends calm
    exact interpret_under below akin ends calm
  · intro fuel paren after overflows more ending other ends
    exact overflow_begins below akin overflows ends
  · intro reached there reaches
    obtain ⟨limit, depth⟩ := reached_within fits alone reaches
    refine ⟨depth, limit, fun ending after ends => ?_⟩
    obtain ⟨fuel, ended⟩ := ends
    exact (reached.run_changes (restored_allows none_restore) fuel there after (by rw [ended, Outcome.after?_ended])).depth
  · intro paren
    constructor
    · rintro ⟨fuel, after, overflows⟩
      have fails : interpret fuel stmts _ = .ended (.error (.failure ⟨paren, .stackOverflow⟩)) after := overflows
      obtain ⟨_, last, ends, _, overflow⟩ := executeAll_ended fails
      rw [overflow paren rfl] at ends
      obtain ⟨reached, there, reaches, point, calls, full⟩ := Reaches.of_overflow ends
      obtain ⟨limit, depth⟩ := called_within fits alone reaches calls
      exact ⟨reached, there, point, reaches, calls, Nat.le_antisymm depth (limit ▸ full)⟩
    · rintro ⟨reached, there, point, reaches, calls, full⟩
      obtain ⟨limit, _⟩ := called_within fits alone reaches calls
      obtain ⟨stopped, fails⟩ := Exceeds.overflows ⟨point, calls, Nat.le_of_eq (limit.trans full.symm)⟩
      obtain ⟨after, fuel, ends⟩ := reaches.fails fails
      refine ⟨fuel, { after with frame := after.globals, depth := 0 }, ?_⟩
      rw [interpret_fold]
      change Outcome.fold _ _ ((Task.executeAll stmts).run fuel _) = _
      rw [ends]
      rfl

/-- `fn f() { f(); } f();` -/
def callsItself : List Stmt :=
  let name : Token := { kind := .identifier, lexeme := utf8 'f' }
  let call : Stmt := .expression (.call (.name name) default [])
  [.function name [] [call], call]

theorem callsItself_cut_off : (start {}).depth = 0 ∧ 1 ≤ 2 ∧
    ∃ paren after other, interpret 20 callsItself { start {} with maxDepth := 1 } =
        .interrupted (.failure ⟨paren, .stackOverflow⟩) after ∧
      interpret 20 callsItself { start {} with maxDepth := 2 } = .interrupted (.failure ⟨paren, .stackOverflow⟩) other ∧
      after.output.text <+: other.output.text := by
  obtain ⟨_, cut, _⟩ := limit_only_cuts_off callsItself (start {}) rfl (Nat.le_succ 1)
  have first : (interpret 20 callsItself { start {} with maxDepth := 1 }).error? = some ⟨default, .stackOverflow⟩ := by
    decide +kernel
  have second : (interpret 20 callsItself { start {} with maxDepth := 2 }).error? = some ⟨default, .stackOverflow⟩ := by
    decide +kernel
  obtain ⟨after, first⟩ := Outcome.of_error? first
  obtain ⟨other, second⟩ := Outcome.of_error? second
  exact ⟨rfl, Nat.le_succ 1, default, after, other, first, second, cut 20 default after first 20 (.error _) other second⟩

end Treewalk.Machine
