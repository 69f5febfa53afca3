import Treewalk.Proofs.RunChanges
import Treewalk.Proofs.RunMirror

/-! What of a machine matters to a run. Places, the trace and the values that a session has shown are
never looked at, so a run goes the same way without them. What a run writes comes behind what was
written before, and all of it is printed. -/

namespace Treewalk

def Position.forget (_ : Position) : Position := {}

def Write.isPrinted : Write → Bool
  | printed _ => true
  | echoed _ => false

/-- The machine without what no run looks at. -/
def Machine.plain (machine : Machine) : Machine :=
  { machine with
    heap := machine.heap.relocate Position.forget
    output := { machine.output with writes := machine.output.writes.filter Write.isPrinted }
    tracing := false
    trace := #[] }

namespace Mirror
open Run

def plain : Mirror := ⟨Position.forget, Machine.plain, False⟩

private theorem plain_write (text : Bytes) : Mirrored plain id (write text) (write text) := by
  intro machine
  have same : (plain.machine machine).output.sink = machine.output.sink := rfl
  unfold write
  rw [same]
  split
  · exact ⟨_, HostError.interrupt_moved _, rfl⟩
  · have pushed : (machine.output.writes.push (.printed text)).filter Write.isPrinted =
        (machine.output.writes.filter Write.isPrinted).push (.printed text) := by
      rw [Array.filter_push]
      rfl
    change Outcome.value _ _ = Outcome.value _ _
    simp only [plain, Machine.plain, Output.add, Output.refused, pushed, id_eq]

private theorem plain_readLine : Mirrored plain (Value.relocate plain.move) readLine readLine := by
  intro machine
  have same : (plain.machine machine).input = machine.input := rfl
  unfold readLine
  rw [same]
  split
  · exact ⟨_, HostError.interrupt_moved _, rfl⟩
  · next read _ _ _ => cases read.line? <;> rfl

private theorem plain_newFrame (parent : FrameId) : Mirrored plain id (newFrame parent) (newFrame parent) := by
  intro machine
  have allocated : (plain.machine machine).heap.alloc (some parent) =
      ((machine.heap.alloc (some parent)).1, (machine.heap.alloc (some parent)).2.relocate Position.forget) :=
    machine.heap.alloc_relocate (some parent)
  unfold newFrame
  rw [allocated]
  rfl

private theorem plain_lookup (name : Token) :
    Mirrored plain (Value.relocate plain.move) (lookup name) (lookup (name.relocate plain.move)) := by
  intro machine
  have moved : ResultsMoved Position.forget (Value.relocate Position.forget)
      (machine.heap.get machine.frame name machine.search)
      ((plain.machine machine).heap.get (plain.machine machine).frame (name.relocate Position.forget)
        (plain.machine machine).search) :=
    machine.heap.get_moved machine.frame name machine.search
  unfold lookup
  cases found : machine.heap.get machine.frame name machine.search with
  | ok value =>
    rw [found] at moved
    change _ = Except.ok _ at moved
    rw [show plain.move = Position.forget from rfl, moved]
    rfl
  | error error =>
    rw [found] at moved
    obtain ⟨other, same, ends⟩ := moved
    rw [show plain.move = Position.forget from rfl, ends]
    exact ⟨_, .failure same, rfl⟩

private theorem plain_assign (name : Token) (value : Value) :
    Mirrored plain id (assign name value) (assign (name.relocate plain.move) (value.relocate plain.move)) := by
  intro machine
  have moved : ResultsMoved Position.forget id (machine.heap.owner machine.frame name machine.search)
      ((plain.machine machine).heap.owner (plain.machine machine).frame (name.relocate Position.forget)
        (plain.machine machine).search) :=
    machine.heap.owner_moved machine.frame name machine.search
  unfold assign
  cases found : machine.heap.owner machine.frame name machine.search with
  | ok owner =>
    rw [found] at moved
    change _ = Except.ok _ at moved
    rw [show plain.move = Position.forget from rfl, moved]
    have defined : (machine.heap.relocate Position.forget).define owner name.lexeme (value.relocate Position.forget) =
        (machine.heap.define owner name.lexeme value).relocate Position.forget :=
      machine.heap.define_relocate owner name.lexeme value
    change Outcome.value _ _ = Outcome.value _ _
    simp [plain, Machine.plain, ← defined]
  | error error =>
    rw [found] at moved
    obtain ⟨other, same, ends⟩ := moved
    rw [show plain.move = Position.forget from rfl, ends]
    exact ⟨_, .failure same, rfl⟩

private theorem plain_record (event other : TraceEvent) : Mirrored plain id (record event) (record other) := by
  intro machine
  unfold record Run.modify
  dsimp only
  split <;> rfl

theorem plain_faithful : plain.Faithful where
  frame _ := rfl
  depth _ := rfl
  maxDepth _ := rfl
  within _ _ := rfl
  asCall _ _ := rfl
  write := plain_write
  readLine := plain_readLine
  readClock _ := rfl
  newFrame := plain_newFrame
  define name value machine := by
    have defined : (machine.heap.relocate Position.forget).define machine.frame name (value.relocate Position.forget) =
        (machine.heap.define machine.frame name value).relocate Position.forget :=
      machine.heap.define_relocate machine.frame name value
    change Outcome.value _ _ = Outcome.value _ _
    simp [plain, Machine.plain, ← defined]
  defineAll frame bindings machine := by
    have defined : (machine.heap.relocate Position.forget).defineAll frame (relocateBindings Position.forget bindings) =
        (machine.heap.defineAll frame bindings).relocate Position.forget :=
      machine.heap.defineAll_relocate frame bindings
    change Outcome.value _ _ = Outcome.value _ _
    simp [plain, Machine.plain, ← defined]
  lookup := plain_lookup
  assign := plain_assign
  newId _ := rfl
  called _ _ _ _ := plain_record _ _
  returned _ _ := plain_record _ _

end Mirror

namespace Machine
open Run

/-- What was written before is still there, and what came behind it was printed. -/
structure Wrote (before after : Machine) : Prop where
  unlimited : before.output.sink = .unlimited → after.output.sink = .unlimited
  printed : ∃ texts : List Bytes,
    after.output.writes.toList = before.output.writes.toList ++ texts.map Write.printed

theorem Wrote.of_output_eq {before after : Machine} (same : after.output = before.output) : Wrote before after :=
  ⟨fun unlimited => by rw [same, unlimited], [], by rw [same, List.map_nil, List.append_nil]⟩

theorem Wrote.of_sink_behind {before after : Machine} (behind : after.output.sink = before.output.sink.behind)
    (texts : List Bytes)
    (printed : after.output.writes.toList = before.output.writes.toList ++ texts.map Write.printed) : Wrote before after := by
  refine ⟨fun unlimited => ?_, texts, printed⟩
  rw [behind, unlimited]
  rfl

theorem wrote_allows : Allows Wrote := by
  apply Allows.of_quiet
  case quiet =>
    intro machine heap input nextId ticks
    exact .of_output_eq rfl
  case trans =>
    intro first second third one two
    obtain ⟨texts, same⟩ := one.printed
    obtain ⟨others, sameOthers⟩ := two.printed
    refine ⟨fun unlimited => two.unlimited (one.unlimited unlimited), texts ++ others, ?_⟩
    rw [sameOthers, same, List.map_append, List.append_assoc]
  case within =>
    intro before after frame inside
    exact ⟨inside.unlimited, inside.printed⟩
  case asCall =>
    intro before after inside
    exact ⟨inside.unlimited, inside.printed⟩
  case write =>
    intro text before after ends
    rcases write_after ends with rfl | rfl
    · exact .of_sink_behind rfl [] (by simp [Output.refused])
    · exact .of_sink_behind rfl [text] (by simp [Output.add, Output.refused])
  case record =>
    intro event before after ends
    obtain ⟨_, rfl⟩ := record_after ends
    exact .of_output_eq rfl
  case native =>
    intro index arguments before after ends
    cases ends
    exact .of_output_eq rfl

theorem executeAll_wrote {fuel : Nat} {stmts : List Stmt} {before after : Machine}
    (ended : executeAll fuel stmts before = .value () after) : Wrote before after :=
  (runsChange wrote_allows fuel).executeAll stmts before after (by rw [ended]; rfl)

def Finishes (stmts : List Stmt) (before after : Machine) : Prop :=
  ∃ fuel, executeAll fuel stmts before = .value () after

theorem finishes_nil (machine : Machine) : Finishes [] machine machine :=
  ⟨1, rfl⟩

theorem finishes_cons {stmt : Stmt} {rest : List Stmt} {before after : Machine} :
    Finishes (stmt :: rest) before after ↔
      ∃ fuel middle, execute fuel stmt before = .value () middle ∧ Finishes rest middle after := by
  constructor
  · intro finishes
    obtain ⟨fuel, ended⟩ := finishes
    cases fuel with
    | zero => cases ended
    | succ fuel =>
      change andThen (execute fuel stmt) (fun _ => executeAll fuel rest) before = _ at ended
      unfold andThen at ended
      cases first : execute fuel stmt before with
      | value result middle =>
        rw [first] at ended
        exact ⟨fuel, middle, first, fuel, ended⟩
      | interrupted cause middle =>
        rw [first] at ended
        cases ended
      | outOfFuel =>
        rw [first] at ended
        cases ended
  · intro parts
    obtain ⟨fuel, middle, first, more, others⟩ := parts
    refine ⟨fuel + more + 1, ?_⟩
    change andThen (execute (fuel + more) stmt) (fun _ => executeAll (fuel + more) rest) before = _
    unfold andThen
    rw [execute_more (Nat.le_add_right fuel more) first]
    exact executeAll_more (Nat.le_add_left more fuel) others

theorem Finishes.append {first second : List Stmt} {before middle after : Machine} (one : Finishes first before middle)
    (two : Finishes second middle after) : Finishes (first ++ second) before after := by
  induction first generalizing before with
  | nil =>
    obtain ⟨fuel, ended⟩ := one
    cases fuel with
    | zero => cases ended
    | succ fuel =>
      cases ended
      exact two
  | cons stmt rest ih =>
    obtain ⟨fuel, reached, started, goesOn⟩ := finishes_cons.mp one
    exact finishes_cons.mpr ⟨fuel, reached, started, ih goesOn⟩

/-- A run without places, trace and echoes finishes as the run with them does. -/
theorem Finishes.plain {stmts : List Stmt} {before after : Machine} (finishes : Finishes stmts before after) :
    Finishes (stmts.map (Stmt.relocate Position.forget)) before.plain after.plain := by
  obtain ⟨fuel, ended⟩ := finishes
  have shown := (runsMirror Mirror.plain_faithful (Nat.le_refl fuel) (.inr rfl)).executeAll stmts before
  rw [ended] at shown
  exact ⟨fuel, shown⟩

/-- The other way round, a run finishes if it does so without them. -/
theorem Finishes.of_plain {stmts : List Stmt} {before shown : Machine}
    (finishes : Finishes (stmts.map (Stmt.relocate Position.forget)) before.plain shown) :
    ∃ after, Finishes stmts before after ∧ after.plain = shown := by
  obtain ⟨fuel, ended⟩ := finishes
  have alike := (runsMirror Mirror.plain_faithful (Nat.le_refl fuel) (.inr rfl)).executeAll stmts before
  change Outcome.Mirrored Mirror.plain id (executeAll fuel stmts before)
    (executeAll fuel (stmts.map (Stmt.relocate Position.forget)) before.plain) at alike
  rw [ended] at alike
  cases outcome : executeAll fuel stmts before with
  | value result after =>
    rw [outcome] at alike
    cases alike
    exact ⟨after, ⟨fuel, outcome⟩, rfl⟩
  | interrupted cause after =>
    rw [outcome] at alike
    obtain ⟨_, _, impossible⟩ := alike
    cases impossible
  | outOfFuel =>
    rw [outcome] at alike
    rcases alike with impossible | impossible
    · exact impossible.elim
    · cases impossible

end Machine
end Treewalk
