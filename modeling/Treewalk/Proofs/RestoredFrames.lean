import Treewalk.Proofs.SessionSteps

/-! Every run puts back the current frame and the count of calls under way, if the functions that the
host adds do. So a session that stands at the top level stands there again after whatever it ran. -/

namespace Treewalk.Machine
open Run

structure Restored (before after : Machine) : Prop where
  frame : after.frame = before.frame
  depth : after.depth = before.depth
  globals : after.globals = before.globals

/-- The functions of the host put back what they change. -/
def NativesRestore [Natives] : Prop :=
  ∀ index arguments, Changes Restored (Natives.run index arguments)

variable [Natives]

theorem restored_allows (natives : NativesRestore) : Allows Restored := by
  apply Allows.of_quiet
  case quiet =>
    intro machine heap input nextId ticks
    exact ⟨rfl, rfl, rfl⟩
  case trans =>
    intro first second third one two
    exact ⟨two.frame.trans one.frame, two.depth.trans one.depth, two.globals.trans one.globals⟩
  case within =>
    intro before after frame inside
    exact ⟨rfl, inside.depth, inside.globals⟩
  case asCall =>
    intro before after inside
    exact ⟨inside.frame, by simp [inside.depth], inside.globals⟩
  case write =>
    intro text before after ends
    rcases write_after ends with rfl | rfl <;> exact ⟨rfl, rfl, rfl⟩
  case record =>
    intro event before after ends
    obtain ⟨_, rfl⟩ := record_after ends
    exact ⟨rfl, rfl, rfl⟩
  case native => exact natives

structure AtTop (machine : Machine) : Prop where
  frame : machine.frame = machine.globals
  depth : machine.depth = 0

omit [Natives] in
theorem Restored.atTop {before after : Machine} (restored : Restored before after) (top : AtTop before) : AtTop after :=
  ⟨by rw [restored.frame, restored.globals, top.frame], by rw [restored.depth, top.depth]⟩

theorem interpret_atTop (natives : NativesRestore) {fuel : Nat} {stmts : List Stmt} {before after : Machine} (top : AtTop before)
    (ends : (interpret fuel stmts before).after? = some after) : AtTop after := by
  unfold interpret at ends
  split at ends
  · cases ends
    exact ⟨rfl, rfl⟩
  · exact ((runsChange (restored_allows natives) fuel).executeAll stmts before after ends).atTop top

end Treewalk.Machine

namespace Treewalk.Session
open Machine

variable [Natives]

omit [Natives] in
theorem perform_atTop {α : Type} {session after : Session} {computation : Run α} {result : Except Interrupt α}
    (inside : ∀ machine, (computation session.machine).after? = some machine → AtTop machine)
    (ends : session.perform computation = some (result, after)) : AtTop after.machine := by
  obtain ⟨machine, ended, kept⟩ := perform_machine ends
  have top := inside machine ended
  rw [kept]
  exact ⟨top.frame, top.depth⟩

theorem runStatements_atTop (natives : NativesRestore) {fuel : Nat} {session after : Session} {stmts : List Stmt} {result : Except Interrupt Unit}
    (top : AtTop session.machine) (ends : session.runStatements fuel stmts = some (result, after)) :
    AtTop after.machine :=
  perform_atTop (fun _ interpreted => interpret_atTop natives top interpreted) ends

theorem run_atTop (natives : NativesRestore) {fuel : Nat} {session after : Session} {source : Bytes} (top : AtTop session.machine)
    (ends : session.run fuel source = some after) : AtTop after.machine := by
  rcases run_cases ends with ⟨_, rfl⟩ | ⟨_, result, ran⟩
  · exact top
  · exact runStatements_atTop natives top ran

/-- A single expression is evaluated without going back to the top level by force. -/
theorem evaluate_atTop (natives : NativesRestore) {fuel : Nat} {session after : Session} {source : Bytes} {value : Option Value}
    (top : AtTop session.machine) (ends : session.evaluate fuel source = some (value, after)) : AtTop after.machine := by
  rcases evaluate_cases ends with ⟨_, rfl, _⟩ | ⟨_, ⟨expr, result, _, performed, _⟩ | ⟨result, ran, _⟩⟩
  · exact top
  · refine perform_atTop (fun machine evaluated => ?_) performed
    exact ((runsChange (restored_allows natives) fuel).evaluate expr _ machine evaluated).atTop top
  · exact runStatements_atTop natives top ran

omit [Natives] in
theorem echo_atTop {session : Session} (top : AtTop session.machine) (value : Option Value) :
    AtTop (session.echo value).machine := by
  obtain ⟨output, shown⟩ := echo_output session value
  rw [shown]
  exact ⟨top.frame, top.depth⟩

theorem feed_atTop (natives : NativesRestore) {fuel : Nat} {session after : Session} {line : Bytes} {final more : Bool}
    (top : AtTop session.machine) (ends : session.feed fuel line final = some (more, after)) : AtTop after.machine := by
  rcases feed_cases ends with ⟨_, rfl⟩ | ⟨_, ⟨_, rfl⟩ | ⟨text, value, evaluated, _, evaluates, rfl⟩⟩
  · exact top
  · exact top
  · refine echo_atTop (evaluate_atTop natives ?_ evaluates) value
    exact top

end Treewalk.Session

namespace Treewalk.Machine
open Run

/-- However a run ends, it puts the frame and the depth back; and from the top level nothing that a
session does leads anywhere else. -/
theorem run_puts_back [Natives] (natives : NativesRestore) (fuel : Nat) :
    (∀ expr, Changes Restored (evaluate fuel expr)) ∧
    (∀ stmt, Changes Restored (execute fuel stmt)) ∧
    (∀ stmts, Changes Restored (executeAll fuel stmts)) ∧
    (∀ frame stmts, Changes Restored (executeIn fuel frame stmts)) ∧
    (∀ callee arguments, Changes Restored (invoke fuel callee arguments)) ∧
    (∀ callee arguments paren, Changes Restored (traced callee arguments paren (invoke fuel callee arguments))) ∧
    (∀ machine stmts after, AtTop machine → (interpret fuel stmts machine).after? = some after → AtTop after) ∧
    ∀ session : Session, AtTop session.machine →
      (∀ source after, session.run fuel source = some after → AtTop after.machine) ∧
      (∀ source value after, session.evaluate fuel source = some (value, after) → AtTop after.machine) ∧
      ∀ line final more after, session.feed fuel line final = some (more, after) → AtTop after.machine := by
  have allows := restored_allows natives
  have runs := runsChange allows fuel
  refine ⟨runs.evaluate, runs.execute, runs.executeAll, ?_, runs.invoke, ?_, ?_, ?_⟩
  · intro frame stmts
    exact allows.inFrame frame (runs.executeAll stmts)
  · intro callee arguments paren
    exact allows.traced callee arguments paren (runs.invoke callee arguments)
  · intro machine stmts after top ends
    exact interpret_atTop natives top ends
  · intro session top
    refine ⟨?_, ?_, ?_⟩
    · intro source after ends
      exact Session.run_atTop natives top ends
    · intro source value after ends
      exact Session.evaluate_atTop natives top ends
    · intro line final more after ends
      exact Session.feed_atTop natives top ends

theorem none_restore : @NativesRestore Natives.none := by
  intro index arguments before after ends
  cases ends
  exact ⟨rfl, rfl, rfl⟩

/-- A host with one function, which writes a line and fails. -/
@[reducible] def complaining : Natives where
  run _ _ := do
    Run.writeLine (.ofString "oh")
    Run.interrupt (.host (.custom (.ofString "no")))

/-- `{ fn f() { complain(); } f(); }` -/
def complaint : List Stmt :=
  let name (text : String) : Token := { kind := .identifier, lexeme := .ofString text }
  let call (text : String) : Stmt := .expression (.call (.name (name text)) { kind := .rightParen, lexeme := [] } [])
  [.block [.function (name "f") [] [call "complain"], call "f"] {}]

def listening : Machine :=
  let machine := start { tracing := true }
  let native := { id := machine.nextId, name := .ofString "complain", arity := 0, primitive := .foreign 0 }
  { machine with heap := machine.heap.define machine.globals native.name (.callable (.native native)) }

/-- It fails two calls deep in a block, so no call returns. -/
theorem complaint_restored : @NativesRestore complaining ∧ AtTop listening ∧
    ∃ after, (@executeAll complaining 20 complaint listening).after? = some after ∧
      after.trace = #[.called (.ofString "<fn f>") 0 0 1, .called (.ofString "<native fn complain>") 0 0 2] ∧
      Restored listening after ∧
      ∃ final, (@interpret complaining 20 complaint listening).after? = some final ∧ AtTop final := by
  have natives : @NativesRestore complaining := by
    intro index arguments
    have allows : @Allows Natives.none Restored := restored_allows none_restore
    exact allows.bind (allows.write _) fun _ => allows.interrupt _
  have top : AtTop listening := ⟨rfl, rfl⟩
  have told : (@executeAll complaining 20 complaint listening).after?.map (·.trace) =
      some #[.called (.ofString "<fn f>") 0 0 1, .called (.ofString "<native fn complain>") 0 0 2] := by decide +kernel
  have ended : (@interpret complaining 20 complaint listening).after?.isSome = true := by decide +kernel
  obtain ⟨after, ends, trace⟩ := Option.map_eq_some_iff.mp told
  obtain ⟨final, interpreted⟩ := Option.isSome_iff_exists.mp ended
  obtain ⟨_, _, lists, _, _, _, programs, _⟩ := @run_puts_back complaining natives 20
  exact ⟨natives, top, after, ends, trace, lists complaint _ after ends, final, interpreted,
    programs _ complaint final top interpreted⟩

end Treewalk.Machine
