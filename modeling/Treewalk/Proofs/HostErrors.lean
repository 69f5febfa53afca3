import Treewalk.Proofs.PlainRun

/-! The errors of the host. A read or a write fails with an error that the reader or the writer had in
store, and afterwards they have no others in store than before. -/

namespace Treewalk

def Ending.Stores : Ending → HostError → Prop
  | always error?, error => error? = some error
  | once error? _ ending, error => error? = some error ∨ ending.Stores error

/-- The writer fails with the error sooner or later. -/
def Sink.Stores : Sink → HostError → Prop
  | unlimited, _ => False
  | closed error, other => error = other
  | failing _ error rest, other => error = other ∨ rest.Stores other

theorem Ending.stores_error? {ending : Ending} {error : HostError} (fails : ending.error? = some error) :
    ending.Stores error := by
  cases ending with
  | always error? => exact fails
  | once error? rest ending => exact .inl fails

theorem Ending.stores_of_behind {ending : Ending} {error : HostError} (stores : ending.behind.ending.Stores error) :
    ending.Stores error := by
  cases ending with
  | always error? => exact stores
  | once error? rest ending => exact .inr stores

theorem Sink.stores_error? {sink : Sink} {error : HostError} (fails : sink.error? = some error) : sink.Stores error := by
  cases sink with
  | unlimited => cases fails
  | closed other =>
    cases fails
    rfl
  | failing count other rest =>
    cases count with
    | zero =>
      cases fails
      exact .inl rfl
    | succ count => cases fails

theorem Sink.stores_of_behind {sink : Sink} {error : HostError} (stores : sink.behind.Stores error) : sink.Stores error := by
  cases sink with
  | unlimited | closed other => exact stores
  | failing count other rest =>
    cases count with
    | zero => exact .inr stores
    | succ count => exact stores

theorem Input.readLine_stores {input after : Input} {read : LineRead} (reads : input.readLine = (read, after)) :
    (∀ error, after.ending.Stores error → input.ending.Stores error) ∧
      ∀ error, read = .broken error → input.ending.Stores error := by
  unfold readLine at reads
  dsimp only at reads
  split at reads
  next =>
    cases reads
    refine ⟨fun _ stores => stores, ?_⟩
    rintro _ ⟨⟩
  next =>
    cases fails : input.ending.error? with
    | some error =>
      rw [fails] at reads
      cases reads
      refine ⟨fun _ => Ending.stores_of_behind, ?_⟩
      rintro _ ⟨⟩
      exact Ending.stores_error? fails
    | none =>
      rw [fails] at reads
      cases reads
      refine ⟨fun _ => Ending.stores_of_behind, ?_⟩
      rintro _ ⟨⟩

/-- An error that the host of a machine hands over sooner or later. -/
def Machine.HandsOver (machine : Machine) (error : HostError) : Prop :=
  machine.input.ending.Stores error ∨ machine.output.sink.Stores error

namespace Machine
open Run

variable {machine after : Machine} {cause : Interrupt}

theorem write_interrupted {text : Bytes} (stops : write text machine = .interrupted cause after) :
    ∃ error, machine.HandsOver error ∧ cause = error.interrupt := by
  unfold write at stops
  cases fails : machine.output.sink.error? with
  | some error =>
    rw [fails] at stops
    cases stops
    exact ⟨error, .inr (Sink.stores_error? fails), rfl⟩
  | none =>
    rw [fails] at stops
    cases stops

theorem write_handsOver {text : Bytes} (ends : (write text machine).after? = some after) (error : HostError)
    (handed : after.HandsOver error) : machine.HandsOver error := by
  have behind : after.input = machine.input ∧ after.output.sink = machine.output.sink.behind := by
    rcases write_after ends with rfl | rfl <;> exact ⟨rfl, rfl⟩
  unfold HandsOver at handed ⊢
  rw [behind.1, behind.2] at handed
  exact handed.imp_right Sink.stores_of_behind

theorem readLine_interrupted (stops : readLine machine = .interrupted cause after) :
    ∃ error, machine.HandsOver error ∧ cause = error.interrupt := by
  unfold readLine at stops
  split at stops <;> cases stops
  next error _ reads => exact ⟨error, .inl ((Input.readLine_stores reads).2 error rfl), rfl⟩

end Machine
end Treewalk
