import Treewalk.Proofs.RegularSessions
import Treewalk.Proofs.SourceEvaluation

/-! Values that have what their kind demands. A session that only sources drive meets no others, whatever it has kept
from sources before: the mark of a variable without a value stays in its frame, and is never read, passed on,
returned or shown. -/

namespace Treewalk

def standIns : List Bytes :=
  [.ofString "<uninitialized>", .ofString "<unknown>", .ofString "<fn>"]

structure Value.Proper (value : Value) : Prop where
  initialized : value.kind ≠ .uninitialized
  known : value.kind ≠ .unknown
  /-- Only a string, which is shown as it is, can look like a value without a payload. -/
  shown : value.text ∈ standIns → value.kind = .string
  bool : value.kind = .bool → value = .bool value.toBool
  number : value.kind = .number → value = .number value.toNumber
  string : value.kind = .string → value = .string value.toBytes
  callable : value.kind = .callable → ∃ called, value.callable? = some called ∧ value = .callable called

theorem standIn_start {text : Bytes} (standIn : text ∈ standIns) : text.head? = some 0x3C := by
  simp only [standIns, List.mem_cons, List.not_mem_nil, or_false] at standIn
  rcases standIn with rfl | rfl | rfl <;> decide

namespace Decimal

private theorem digit_start {byte : UInt8} (most : byte ≤ 0x39) : byte ≠ 0x3C := by
  rintro rfl
  exact absurd most (by decide)

private theorem positional_start {d : Digits} (small : ∀ digit ∈ d.digits, digit < 10) :
    d.positional.head? ≠ some 0x3C := by
  obtain ⟨byte, rest, same, _, most⟩ := (positional_shows small).starts
  rw [same, List.head?_cons]
  exact fun starts => digit_start most (Option.some.inj starts)

private theorem scientific_start {d : Digits} (small : ∀ digit ∈ d.digits, digit < 10) :
    d.scientific.head? ≠ some 0x3C := by
  obtain ⟨digits, point⟩ := d
  unfold Digits.scientific
  dsimp only
  cases digits with
  | nil => simp [Digits.digitText, utf8]
  | cons digit rest =>
    have most := (digitText_allDigits small (.ofNat (0x30 + digit)) List.mem_cons_self).2
    exact fun starts => digit_start most (Option.some.inj starts)

end Decimal

/-- A number starts with a digit, a sign or a letter. -/
theorem numberText_start (x : Float) : (numberText x).head? ≠ some 0x3C := by
  unfold numberText
  cases Decimal.Reading.ofFloat x with
  | nan => decide
  | infinite negative => cases negative <;> decide
  | finite negative magnitude =>
    have positional := Decimal.positional_start magnitude.shortest_lt
    have scientific := Decimal.scientific_start magnitude.shortest_lt
    cases negative with
    | true =>
      dsimp only
      split <;> simp [Decimal.signed, utf8]
    | false =>
      dsimp only
      split
      · exact positional
      · exact scientific

/-- The name of a callable stands behind a space. -/
theorem Callable.text_shown (called : Callable) : called.text ∉ standIns := by
  intro standIn
  simp only [standIns, List.mem_cons, List.not_mem_nil, or_false] at standIn
  cases called with
  | function closure => simp [text, Bytes.ofString, utf8] at standIn
  | native builtin => simp [text, Bytes.ofString, utf8] at standIn

theorem Value.text_shown {value : Value} (sound : value.Sound) (standIn : value.text ∈ standIns) :
    value.kind = .string := by
  cases value with
  | null => exact absurd standIn (by decide)
  | bool value => cases value <;> exact absurd standIn (by decide)
  | number value => exact absurd (standIn_start standIn) (numberText_start value)
  | string value => rfl
  | callable called => exact absurd standIn called.text_shown
  | hollow | uninitialized | foreign => exact sound.elim

/-- What a source can make is proper. -/
theorem Value.Sound.proper {value : Value} (sound : value.Sound) : value.Proper where
  initialized unset := by
    cases value <;> first | exact sound.elim | cases unset
  known unknown := by
    cases value <;> first | exact sound.elim | cases unknown
  shown := text_shown sound
  bool same := by
    cases value <;> first | rfl | cases same
  number same := by
    cases value <;> first | rfl | cases same
  string same := by
    cases value <;> first | rfl | cases same
  callable same := by
    cases value with
    | callable called => exact ⟨called, rfl, rfl⟩
    | hollow => exact sound.elim
    | _ => cases same

def Interrupt.carried : Interrupt → List Value
  | returnValue _ value => [value]
  | breakLoop _ | continueLoop _ | failure _ | host _ => []

namespace Machine

def HoldsProper (machine : Machine) : Prop :=
  machine.heap.Holds fun held => held.Proper ∨ held = .uninitialized

namespace Task

/-- The values that a task is given. -/
def passed : Task → List Value
  | invoke callable arguments => .callable callable :: arguments
  | evaluate _ | evaluateAll _ | execute _ | executeAll _ | repeatWhile _ _ _ => []

/-- The values that come out of a task. -/
def yielded : (task : Task) → Except Interrupt task.Result → List Value
  | evaluate _, .ok value | invoke _ _, .ok value => [value]
  | evaluateAll _, .ok values => values
  | execute _, .ok _ | executeAll _, .ok _ | repeatWhile _ _ _, .ok _ => []
  | _, .error cause => cause.carried

theorem yielded_error (task : Task) (cause : Interrupt) : task.yielded (.error cause) = cause.carried := by
  cases task <;> rfl

/-- Nothing but proper values goes into the task or comes out of it, and the frames hold no others before it and
after it. -/
structure Proper (task : Task) (machine : Machine) : Prop where
  holds : machine.HoldsProper
  passed : ∀ value ∈ task.passed, value.Proper
  ends : ∀ ending after, task.Ends machine ending after → after.HoldsProper ∧ ∀ value ∈ task.yielded ending, value.Proper

end Task

private theorem sounding_holds {machine other : Machine} (sound : sounding.machine machine other) : machine.HoldsProper :=
  fun frame found known binding bound => (sound.2.1 frame found known binding bound).imp_left Value.Sound.proper

private theorem carried_proper {cause : Interrupt} (regular : cause.Regular) : ∀ value ∈ cause.carried, value.Proper := by
  cases cause with
  | returnValue keyword value =>
    have sound : value.Sound := regular
    intro other member
    obtain rfl := List.mem_singleton.mp member
    exact sound.proper
  | breakLoop | continueLoop | failure | host => exact fun value none => nomatch none

variable {place : Place} {task : Task} {machine : Machine}

private theorem passed_proper (fits : sounding.Fits place task) : ∀ value ∈ task.passed, value.Proper := by
  cases task with
  | invoke callable arguments =>
    obtain ⟨known, arguable, _⟩ := fits
    intro value member
    rcases List.mem_cons.mp member with rfl | argument
    · exact Value.Sound.proper known
    · exact (arguable value argument).proper
  | evaluate | evaluateAll | execute | executeAll | repeatWhile => exact fun value none => nomatch none

private theorem results_proper {result : task.Result} (sound : sounding.Results task result) :
    ∀ value ∈ task.yielded (.ok result), value.Proper := by
  cases task with
  | evaluate | invoke =>
    intro value member
    obtain rfl := List.mem_singleton.mp member
    exact Value.Sound.proper sound
  | evaluateAll => exact fun value member => (sound value member).proper
  | execute | executeAll | repeatWhile => exact fun value none => nomatch none

private theorem causes_regular {cause : Interrupt} (allowed : sounding.Causes place task cause) : cause.Regular := by
  cases task with
  | invoke callable arguments =>
    change ite _ _ _ at allowed
    split at allowed <;> exact allowed
  | evaluate | evaluateAll | execute | executeAll | repeatWhile => exact allowed

private theorem task_proper (sound : sounding.machine machine machine) (fits : sounding.Fits place task) :
    task.Proper machine where
  holds := sounding_holds sound
  passed := passed_proper fits
  ends := by
    intro ending after ends
    cases ending with
    | ok result =>
      obtain ⟨allowed, _, still⟩ := sounding_lawful.ends ends fits sound
      exact ⟨sounding_holds still, results_proper allowed⟩
    | error cause =>
      obtain ⟨fuel, ended⟩ := ends
      obtain ⟨allowed, _, still⟩ := sounding_lawful.stops id ended fits sound
      rw [Task.yielded_error]
      exact ⟨sounding_holds still, carried_proper (causes_regular allowed)⟩

/-- Every point of a run of a sound tree is proper. -/
private theorem reached_proper {reached : Task} {there : Machine} (sound : sounding.machine machine machine)
    (fits : sounding.Fits place task) (reaches : Reaches task machine reached there) : reached.Proper there := by
  obtain ⟨_, _, fits, rfl, holds⟩ := sounding_lawful.reached reaches fits sound
  exact task_proper ⟨rfl, holds⟩ fits

end Machine

namespace Session
open Machine

/-- The sessions that come about when sources are run, evaluated or fed in line by line. -/
inductive Driven (options : Options) : Session → Prop where
  | start : Driven options (.start options)
  | run {session after : Session} {fuel : Nat} {source : Bytes} (before : Driven options session)
      (ends : session.run fuel source = some after) : Driven options after
  | evaluate {session after : Session} {fuel : Nat} {source : Bytes} {value : Option Value} (before : Driven options session)
      (ends : session.evaluate fuel source = some (value, after)) : Driven options after
  | feed {session after : Session} {fuel : Nat} {line : Bytes} {final more : Bool} (before : Driven options session)
      (ends : session.feed fuel line final = some (more, after)) : Driven options after
  | takeLine {session : Session} (before : Driven options session) : Driven options session.takeLine.2

theorem echo_heap (session : Session) (value : Option Value) :
    (session.echo value).machine.heap = session.machine.heap := by
  obtain ⟨output, shown⟩ := echo_output session value
  rw [shown]

private theorem Driven.sound {options : Options} (plain : options.hostFunctions = false) {session : Session}
    (driven : Driven options session) : sounding.machine session.machine session.machine := by
  induction driven with
  | start => exact sounding_alone (start_holds plain)
  | run _ ends ih => exact run_stays_sound ih ends
  | evaluate _ ends ih => exact evaluate_stays_sound ih ends
  | @feed session after _ _ _ _ _ ends ih =>
    rcases feed_cases ends with ⟨_, rfl⟩ | ⟨_, ⟨_, rfl⟩ | ⟨text, value, evaluated, _, evaluates, rfl⟩⟩
    · exact ih
    · exact ih
    · have kept : sounding.machine { session with buffer := [], reporter := session.reporter.reset }.machine _ := ih
      have still := evaluate_stays_sound kept evaluates
      exact sounding_alone (by rw [echo_heap]; exact still.2.1)
  | takeLine _ ih => exact sounding_alone ih.2.1

/-- What evaluating a source yields is proper. -/
private theorem evaluate_proper {session after : Session} {fuel : Nat} {source : Bytes} {value : Value}
    (sound : sounding.machine session.machine session.machine)
    (ends : session.evaluate fuel source = some (some value, after)) : value.Proper := by
  obtain ⟨_, expr, machine, single, yields⟩ := (evaluate_yields ends value).mp rfl
  have fits : sounding.Fits .top (.evaluate expr) := expression_sound single
  have ended : (Task.evaluate expr).Ends session.machine (.ok value) machine := ⟨fuel, yields⟩
  exact Value.Sound.proper (sounding_lawful.ends ended fits sound).1

/-- A session that sources drive never meets the mark of a variable without a value outside of the frames: every
value that is read, passed on, yielded or shown is proper. -/
theorem values_stay_proper {options : Options} (plain : options.hostFunctions = false) {session : Session}
    (driven : Driven options session) (source : Bytes) :
    (∀ reached there, Reaches (.executeAll (Program.ofSource source).statements) session.machine reached there →
      reached.Proper there) ∧
    (∀ expr, (Program.ofSource source).statements = [.expression expr] →
      ∀ reached there, Reaches (.evaluate expr) session.machine reached there → reached.Proper there) ∧
    (∀ fuel value after, session.evaluate fuel source = some (some value, after) → value.Proper) ∧
    ∀ fuel line final more after, session.feed fuel line final = some (more, after) →
      after.machine = session.machine ∨ ∃ fed value evaluated,
        { session with buffer := [], reporter := session.reporter.reset }.evaluate fuel fed = some (value, evaluated) ∧
        after = evaluated.echo value ∧ ∀ shown, value = some shown → shown.Proper := by
  have sound := driven.sound plain
  have fits : sounding.Fits .top (.executeAll (Program.ofSource source).statements) := Program.ofSource_sound source
  refine ⟨?_, ?_, ?_, ?_⟩
  · intro reached there reaches
    exact reached_proper sound fits reaches
  · intro expr single reached there reaches
    have known : sounding.Fits .top (.evaluate expr) := expression_sound single
    exact reached_proper sound known reaches
  · intro fuel value after ends
    exact evaluate_proper sound ends
  · intro fuel line final more after ends
    rcases feed_cases ends with ⟨_, rfl⟩ | ⟨_, ⟨_, rfl⟩ | ⟨fed, value, evaluated, _, evaluates, shows⟩⟩
    · exact .inl rfl
    · exact .inl rfl
    · refine .inr ⟨fed, value, evaluated, evaluates, shows, ?_⟩
      rintro shown rfl
      have kept : sounding.machine { session with buffer := [], reporter := session.reporter.reset }.machine _ := sound
      exact evaluate_proper kept evaluates

/-- `x = f(x);` in a session that has kept a function and a variable without a value, and a call of the function. -/
theorem keptVariable_stays_proper : ∃ session value after,
    (Session.start {}).run 50 (.ofString "var x; fn f(y) \x7b return y; \x7d") = some session ∧
    ({} : Options).hostFunctions = false ∧ Driven {} session ∧
    (session.machine.heap.find? session.machine.globals (.ofString "x")).map (·.2.kind) = some .uninitialized ∧
    session.evaluate 50 (.ofString "f(\"a\");") = some (some value, after) ∧ value.Proper ∧
    ∀ reached there,
      Reaches (.executeAll (Program.ofSource (.ofString "x = f(x);")).statements) session.machine reached there →
      reached.Proper there := by
  have facts : ((Session.start {}).run 50 (.ofString "var x; fn f(y) \x7b return y; \x7d")).map (fun session =>
      ((session.machine.heap.find? session.machine.globals (.ofString "x")).map (·.2.kind),
        (session.evaluate 50 (.ofString "f(\"a\");")).bind (·.1.map Value.kind))) =
      some (some .uninitialized, some .string) := by
    decide +kernel
  obtain ⟨session, ran, kept⟩ := Option.map_eq_some_iff.mp facts
  obtain ⟨unset, called⟩ := Prod.mk.inj kept
  obtain ⟨⟨yielded, after⟩, evaluates, some⟩ := Option.bind_eq_some_iff.mp called
  obtain ⟨value, rfl, _⟩ := Option.map_eq_some_iff.mp some
  have driven : Driven {} session := .run .start ran
  obtain ⟨reached, _, _⟩ := values_stay_proper rfl driven (.ofString "x = f(x);")
  obtain ⟨_, _, proper, _⟩ := values_stay_proper rfl driven (.ofString "f(\"a\");")
  exact ⟨session, value, after, ran, rfl, driven, unset, evaluates, proper 50 value after evaluates, reached⟩

end Session
end Treewalk
