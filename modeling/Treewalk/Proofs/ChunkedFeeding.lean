import Treewalk.Proofs.IncompleteInput
import Treewalk.Proofs.PlainRun
import Treewalk.Proofs.SourceJoin

/-! A program that is fed in chunk by chunk does what it does when it is run as one text. Within a chunk
a session waits for more; behind its last line it runs the chunk, and forgets the text. -/

namespace Treewalk.Session
open Machine

/-- Feeds in lines one after another, none of them as the final one. -/
def feedLines (fuel : Nat) : Session → List Bytes → Option Session
  | session, [] => some session
  | session, line :: rest => do
    let (_, session) ← session.feed fuel line false
    session.feedLines fuel rest

/-- Lines that are a valid text together, while no beginning of them is: neither as it is nor closed
by a semicolon on a line of its own. -/
structure Chunk (lines : List Bytes) : Prop where
  nonempty : lines ≠ []
  valid : (Program.ofSource (.ofLines lines)).errors = []
  begun : ∀ count, count < lines.length → 0 < count →
    isBlankText (.ofLines (lines.take count)) = false ∧ (Program.ofSource (.ofLines (lines.take count))).errors ≠ [] ∧
      (Program.ofSource (.ofLines (lines.take count) ++ Bytes.newline ++ utf8 ';')).errors ≠ []

instance (lines : List Bytes) : Decidable (Chunk lines) :=
  decidable_of_iff
    (lines ≠ [] ∧ (Program.ofSource (.ofLines lines)).errors = [] ∧ ∀ count, count < lines.length → 0 < count →
      isBlankText (.ofLines (lines.take count)) = false ∧ (Program.ofSource (.ofLines (lines.take count))).errors ≠ [] ∧
        (Program.ofSource (.ofLines (lines.take count) ++ Bytes.newline ++ utf8 ';')).errors ≠ [])
    ⟨fun chunk => ⟨chunk.1, chunk.2.1, chunk.2.2⟩, fun chunk => ⟨chunk.nonempty, chunk.valid, chunk.begun⟩⟩

def buffered (lines : List Bytes) : Bytes :=
  lines.flatMap (· ++ Bytes.newline)

theorem buffered_eq {lines : List Bytes} (some : lines ≠ []) : buffered lines = .ofLines lines ++ Bytes.newline := by
  unfold buffered
  induction lines with
  | nil => exact absurd rfl some
  | cons line rest ih =>
    cases rest with
    | nil => simp [Bytes.ofLines, Bytes.joinWith]
    | cons next rest =>
      have joined : Bytes.ofLines (line :: next :: rest) = line ++ Bytes.newline ++ .ofLines (next :: rest) := rfl
      rw [List.flatMap_cons, ih (List.cons_ne_nil next rest), joined, List.append_assoc (line ++ Bytes.newline)]

theorem buffered_snoc (lines : List Bytes) (line : Bytes) :
    buffered (lines ++ [line]) = buffered lines ++ line ++ Bytes.newline := by
  simp [buffered]

theorem isBlankText_newline (text : Bytes) : isBlankText (text ++ Bytes.newline) = isBlankText text := by
  have blank : Lexer.newline.satisfies Text.isBlank = true := by decide
  unfold isBlankText
  rw [Lexer.decode_ended, List.all_append, List.all_cons, blank, List.all_nil, Bool.and_true, Bool.and_true]

section Lines

variable {fuel : Nat} {session : Session} {lines front back : List Bytes} {line : Bytes}

theorem feed_waits (chunk : Chunk lines) (same : lines = front ++ line :: back) (more : back ≠ [])
    (kept : session.buffer = buffered front) :
    session.feed fuel line false = some (true, { session with buffer := buffered (front ++ [line]) }) := by
  have split : lines = (front ++ [line]) ++ back := by simp [same]
  have proper : (front ++ [line]).length < lines.length := by
    have some := List.length_pos_iff.mpr more
    simp only [same, List.length_append, List.length_cons, List.length_nil]
    omega
  have taken : lines.take (front ++ [line]).length = front ++ [line] := by rw [split, List.take_left]
  have begun := chunk.begun _ proper (by simp)
  rw [taken] at begun
  obtain ⟨text, invalid, unclosed⟩ := begun
  have whole := chunk.valid
  rw [split, Bytes.ofLines_append (by simp) more] at whole
  have incomplete : Diagnostic.anyIncomplete (Program.ofSource (.ofLines (front ++ [line]) ++ Bytes.newline)).errors = true := by
    rcases Program.ofSource_beginning _ _ whole with complete | incomplete
    · exact absurd (Program.valid_newline.mp complete) invalid
    · exact incomplete
  have nothing : completed (.ofLines (front ++ [line]) ++ Bytes.newline) false = none := by
    unfold completed
    dsimp only
    rw [if_pos incomplete, List.isEmpty_eq_false_iff.mpr unclosed]
    rfl
  unfold feed
  dsimp only
  rw [kept, ← buffered_snoc, buffered_eq (by simp), isBlankText_newline, text, if_neg Bool.false_ne_true, nothing]

theorem feed_completes (chunk : Chunk lines) (same : lines = front ++ [line]) (kept : session.buffer = buffered front) :
    session.feed fuel line false =
      if isBlankText (.ofLines lines) then some (false, { session with buffer := [] })
      else (({ session with buffer := [], reporter := session.reporter.reset } : Session).evaluate fuel
        (.ofLines lines ++ Bytes.newline)).map (fun (value, after) => (false, after.echo value)) := by
  have valid := Program.valid_newline.mpr chunk.valid
  unfold feed
  dsimp only
  rw [kept, ← buffered_snoc, buffered_eq (by simp), isBlankText_newline, ← same, completed, valid]
  rfl

theorem feedLines_append (first second : List Bytes) : session.feedLines fuel (first ++ second) =
    (session.feedLines fuel first).bind fun reached => reached.feedLines fuel second := by
  induction first generalizing session with
  | nil => rfl
  | cons line rest ih =>
    rw [List.cons_append, feedLines, feedLines]
    cases session.feed fuel line false with
    | none => rfl
    | some result => exact ih

theorem feedLines_waits (chunk : Chunk lines) {fed : List Bytes} (same : lines = fed ++ (front ++ back)) (more : back ≠ [])
    (kept : session.buffer = buffered fed) :
    session.feedLines fuel front = some { session with buffer := buffered (fed ++ front) } := by
  induction front generalizing fed session with
  | nil => rw [feedLines, List.append_nil, ← kept]
  | cons line front ih =>
    have waits : session.feed fuel line false = _ := feed_waits chunk same (by simp [more]) kept
    have next : lines = (fed ++ [line]) ++ (front ++ back) := by simp [same]
    have rest : ({ session with buffer := buffered (fed ++ [line]) } : Session).feedLines fuel front = _ := ih next rfl
    rw [List.append_assoc] at rest
    rw [feedLines, waits]
    exact rest

end Lines

section Runs

variable {fuel : Nat} {session after : Session}

theorem perform_buffer {α : Type} {computation : Run α} {result : Except Interrupt α}
    (ends : session.perform computation = some (result, after)) : after.buffer = session.buffer := by
  rcases perform_cases ends with ⟨_, _, _, _, rfl⟩ | ⟨_, _, _, _, rfl⟩ <;> rfl

theorem evaluate_buffer {source : Bytes} {value : Option Value}
    (ends : session.evaluate fuel source = some (value, after)) : after.buffer = session.buffer := by
  rcases evaluate_cases ends with ⟨_, rfl, _⟩ | ⟨_, ⟨_, _, _, performed, _⟩ | ⟨_, ran, _⟩⟩
  · rfl
  · exact perform_buffer performed
  · exact perform_buffer ran

theorem echo_buffer (value : Option Value) : (session.echo value).buffer = session.buffer := by
  obtain ⟨output, shown⟩ := echo_output session value
  rw [shown]

theorem reportInterrupt_hadRuntimeError (reporter : Reporter) (interrupt : Interrupt) :
    (reporter.reportInterrupt interrupt).hadRuntimeError = true := by
  unfold Reporter.reportInterrupt
  cases interrupt.runtimeError? with
  | some error =>
    unfold Reporter.reportRuntimeError
    dsimp only
    split <;> rfl
  | none => rfl

/-- A computation without a report ended with a value. -/
theorem perform_quiet {α : Type} {computation : Run α} {result : Except Interrupt α}
    (ends : session.perform computation = some (result, after)) (quiet : after.reporter.hadRuntimeError = false) :
    ∃ value machine, computation session.machine = .value value machine ∧
      after.machine = { machine with trace := #[] } := by
  rcases perform_cases ends with ⟨value, machine, ended, _, rfl⟩ | ⟨cause, machine, _, _, rfl⟩
  · exact ⟨value, machine, ended, rfl⟩
  · have reported : ((session.settle machine).reportInterrupt cause).reporter.hadRuntimeError = true :=
      reportInterrupt_hadRuntimeError _ cause
    rw [quiet] at reported
    cases reported

theorem finishes_expression {expr : Expr} {value : Value} {before after : Machine}
    (ended : Machine.evaluate fuel expr before = .value value after) : Finishes [.expression expr] before after := by
  refine finishes_cons.mpr ⟨fuel + 1, after, ?_, finishes_nil after⟩
  change Run.andThen (Machine.evaluate fuel expr) (fun _ => Run.succeed ()) before = _
  unfold Run.andThen
  rw [ended]
  rfl

theorem finishes_of_interpret {stmts : List Stmt} {before after : Machine}
    (ended : interpret fuel stmts before = .value () after) : Finishes stmts before after := by
  unfold interpret at ended
  split at ended
  · cases ended
  · exact ⟨fuel, ended⟩

/-- A valid text that is evaluated without a report runs all of its statements, be they a single
expression or not. -/
theorem evaluate_quiet {source : Bytes} {value : Option Value} (valid : (Program.ofSource source).errors = [])
    (ends : session.evaluate fuel source = some (value, after)) (quiet : after.reporter.hadRuntimeError = false) :
    ∃ machine, Finishes (Program.ofSource source).statements session.machine machine ∧
      after.machine = { machine with trace := #[] } := by
  rcases evaluate_cases ends with ⟨faulty, _⟩ | ⟨_, ⟨expr, _, only, performed, _⟩ | ⟨_, ran, _⟩⟩
  · exact absurd valid faulty
  · obtain ⟨value, machine, ended, left⟩ := perform_quiet performed quiet
    rw [only]
    exact ⟨machine, finishes_expression ended, left⟩
  · obtain ⟨_, machine, ended, left⟩ := perform_quiet ran quiet
    exact ⟨machine, finishes_of_interpret ended, left⟩

end Runs

structure Ran (stmts : List Stmt) (before after : Session) : Prop where
  finishes : Finishes stmts before.machine.plain after.machine.plain
  unlimited : after.machine.output.sink = .unlimited
  wrote : ∃ added, after.machine.output.writes.toList = before.machine.output.writes.toList ++ added

theorem Ran.append {first second : List Stmt} {before middle after : Session} (one : Ran first before middle)
    (two : Ran second middle after) : Ran (first ++ second) before after := by
  obtain ⟨added, same⟩ := one.wrote
  obtain ⟨more, sameMore⟩ := two.wrote
  exact ⟨one.finishes.append two.finishes, two.unlimited, added ++ more, by rw [sameMore, same, List.append_assoc]⟩

theorem ran_nothing {before after : Session} (same : after.machine = before.machine)
    (unlimited : before.machine.output.sink = .unlimited) : Ran [] before after := by
  refine ⟨?_, by rw [same, unlimited], [], by rw [same, List.append_nil]⟩
  rw [same]
  exact finishes_nil _

/-- Showing a value changes nothing that a run looks at. -/
theorem echo_ran {session : Session} (unlimited : session.machine.output.sink = .unlimited) (value : Option Value) :
    Ran [] session (session.echo value) := by
  have shown : ∀ text : Bytes, Ran [] session { session with
      machine := { session.machine with output := session.machine.output.add (.echoed text) } } := by
    intro text
    have filtered : (session.machine.output.writes.push (.echoed text)).filter Write.isPrinted =
        session.machine.output.writes.filter Write.isPrinted := by
      rw [Array.filter_push]
      rfl
    have behind : session.machine.output.sink.behind = session.machine.output.sink := by
      rw [unlimited]
      rfl
    refine ⟨?_, by simp [Output.add, Output.refused, unlimited, Sink.behind], [.echoed text], by simp [Output.add]⟩
    have same : ({ session.machine with output := session.machine.output.add (.echoed text) } : Machine).plain =
        session.machine.plain := by
      simp only [Machine.plain, Output.add, Output.refused, filtered, behind]
    rw [same]
    exact finishes_nil _
  unfold echo
  split
  · exact ran_nothing rfl unlimited
  · exact ran_nothing rfl unlimited
  · rw [unlimited]
    exact shown _

theorem isRead_blank {text : Bytes} (blank : isBlankText text = true) : Program.IsRead text [] := by
  obtain ⟨sound, tokens⟩ := Lexer.pieces_blank blank
  rw [Program.isRead_iff, tokens]
  exact ⟨sound, [], by simp, rfl, rfl⟩

section Chunks

variable {fuel : Nat} {session after : Session} {lines : List Bytes}

theorem feed_completes_result (chunk : Chunk lines) {front : List Bytes} {line : Bytes} (same : lines = front ++ [line])
    (kept : session.buffer = buffered front) {more : Bool} (ends : session.feed fuel line false = some (more, after)) :
    more = false ∧ after.buffer = [] := by
  rw [feed_completes chunk same kept] at ends
  split at ends
  · cases ends
    exact ⟨rfl, rfl⟩
  · obtain ⟨⟨value, evaluated⟩, ran, shown⟩ := Option.map_eq_some_iff.mp ends
    cases shown
    exact ⟨rfl, by rw [echo_buffer, evaluate_buffer ran]⟩

/-- All lines of a chunk but the last are waited for; the last one is fed behind them. -/
theorem feedLines_chunk (chunk : Chunk lines) (kept : session.buffer = []) (ends : session.feedLines fuel lines = some after) :
    ∃ front line more, lines = front ++ [line] ∧
      ({ session with buffer := buffered front } : Session).feed fuel line false = some (more, after) := by
  obtain ⟨front, line, same⟩ := List.eq_nil_or_concat lines |>.resolve_left chunk.nonempty
  rw [List.concat_eq_append] at same
  have waits : session.feedLines fuel front = some { session with buffer := buffered front } :=
    feedLines_waits chunk (by rw [same, List.nil_append]) (List.cons_ne_nil line []) kept
  rw [same, feedLines_append, waits, Option.bind_some, feedLines] at ends
  cases fed : ({ session with buffer := buffered front } : Session).feed fuel line false with
  | none =>
    rw [fed] at ends
    cases ends
  | some result =>
    rw [fed] at ends
    obtain ⟨more, reached⟩ := result
    cases ends
    exact ⟨front, line, more, same, fed⟩

theorem feedLines_cleared (chunk : Chunk lines) (kept : session.buffer = [])
    (ends : session.feedLines fuel lines = some after) : after.buffer = [] := by
  obtain ⟨front, line, more, same, fed⟩ := feedLines_chunk chunk kept ends
  exact (feed_completes_result chunk same rfl fed).2

theorem feedLines_ran (chunk : Chunk lines) (kept : session.buffer = []) (unlimited : session.machine.output.sink = .unlimited)
    (ends : session.feedLines fuel lines = some after)
    (quiet : isBlankText (.ofLines lines) = false → after.reporter.hadRuntimeError = false) :
    Ran (Program.plainStatements (.ofLines lines)) session after := by
  obtain ⟨front, line, more, same, fed⟩ := feedLines_chunk chunk kept ends
  rw [feed_completes chunk same rfl] at fed
  split at fed
  next blank =>
    cases fed
    rw [Program.plainStatements, (isRead_blank blank).2]
    exact ran_nothing rfl unlimited
  next some =>
    obtain ⟨⟨value, evaluated⟩, ran, shown⟩ := Option.map_eq_some_iff.mp fed
    cases shown
    have silent := quiet (Bool.eq_false_iff.mpr some)
    rw [echo_reporter] at silent
    have valid := Program.valid_newline.mpr chunk.valid
    obtain ⟨machine, finishes, left⟩ := evaluate_quiet valid ran silent
    have read := Program.isRead_newline.mp (Program.isRead_of_valid valid)
    have whole := finishes.plain
    rw [← read.2] at whole
    obtain ⟨spent, ended⟩ := finishes
    have wrote := executeAll_wrote ended
    obtain ⟨texts, added⟩ := wrote.printed
    have ranAll : Ran (Program.plainStatements (.ofLines lines)) session evaluated := by
      refine ⟨?_, ?_, texts.map Write.printed, ?_⟩
      · rw [left]
        exact whole
      · rw [left]
        exact wrote.unlimited unlimited
      · rw [left]
        exact added
    have both := ranAll.append (echo_ran ranAll.unlimited value)
    rwa [List.append_nil] at both

/-- Behind a list of chunks nothing is left to be waited for. -/
theorem feedChunks_buffer {chunks : List (List Bytes)} (each : ∀ chunk ∈ chunks, Chunk chunk) (kept : session.buffer = [])
    (ends : session.feedLines fuel chunks.flatten = some after) : after.buffer = [] := by
  induction chunks generalizing session with
  | nil =>
    cases ends
    exact kept
  | cons chunk rest ih =>
    rw [List.flatten_cons, feedLines_append] at ends
    obtain ⟨middle, first, others⟩ := Option.bind_eq_some_iff.mp ends
    have cleared := feedLines_cleared (each chunk List.mem_cons_self) kept first
    exact ih (fun chunk member => each chunk (List.mem_cons_of_mem _ member)) cleared others

/-- No chunk reports an error of the running program; a blank one reports nothing at all. -/
def Quiet (fuel : Nat) (session : Session) (chunks : List (List Bytes)) : Prop :=
  ∀ before chunk behind reached, chunks = before ++ chunk :: behind → isBlankText (.ofLines chunk) = false →
    session.feedLines fuel (before ++ [chunk]).flatten = some reached → reached.reporter.hadRuntimeError = false

theorem feedChunks_ran {chunks : List (List Bytes)} (each : ∀ chunk ∈ chunks, Chunk chunk) (kept : session.buffer = [])
    (unlimited : session.machine.output.sink = .unlimited) (ends : session.feedLines fuel chunks.flatten = some after)
    (quiet : Quiet fuel session chunks) :
    Ran (chunks.flatMap fun chunk => Program.plainStatements (.ofLines chunk)) session after := by
  induction chunks generalizing session with
  | nil =>
    cases ends
    exact ran_nothing rfl unlimited
  | cons chunk rest ih =>
    rw [List.flatten_cons, feedLines_append] at ends
    obtain ⟨middle, first, others⟩ := Option.bind_eq_some_iff.mp ends
    have here := each chunk List.mem_cons_self
    have one : Ran (Program.plainStatements (.ofLines chunk)) session middle := by
      refine feedLines_ran here kept unlimited first fun some => ?_
      exact quiet [] chunk rest middle rfl some (by simpa using first)
    have cleared := feedLines_cleared here kept first
    have quietRest : Quiet fuel middle rest := by
      intro before next behind reached split some fedMore
      refine quiet (chunk :: before) next behind reached (by rw [split, List.cons_append]) some ?_
      rw [List.cons_append, List.flatten_cons, feedLines_append, first]
      exact fedMore
    have two := ih (fun chunk member => each chunk (List.mem_cons_of_mem _ member)) cleared one.unlimited others quietRest
    rw [List.flatMap_cons]
    exact one.append two

end Chunks

theorem run_finishes {fuel : Nat} {session : Session} {source : Bytes} {machine : Machine}
    (valid : (Program.ofSource source).errors = [])
    (ended : executeAll fuel (Program.ofSource source).statements session.machine = .value () machine) :
    session.run fuel source = some (session.settle machine) := by
  have interpreted : interpret fuel (Program.ofSource source).statements session.machine = .value () machine := by
    unfold interpret
    rw [ended]
  unfold run runStatements perform
  dsimp only
  rw [valid, List.isEmpty_nil, if_pos rfl, interpreted]
  rfl

/-- Machines that agree but for what no run looks at have printed the same. -/
theorem printed_same {before after other : Machine} (same : after.plain = other.plain) (wrote : Wrote before after)
    {added : List Write} (more : other.output.writes.toList = before.output.writes.toList ++ added) :
    after.output.writes.toList = before.output.writes.toList ++ added.filter Write.isPrinted := by
  obtain ⟨texts, printed⟩ := wrote.printed
  have kept : (after.output.writes.filter Write.isPrinted).toList = (other.output.writes.filter Write.isPrinted).toList :=
    congrArg (fun machine => machine.output.writes.toList) same
  have all : (texts.map Write.printed).filter Write.isPrinted = texts.map Write.printed := by
    simp [List.filter_eq_self, Write.isPrinted]
  rw [Array.toList_filter, Array.toList_filter, printed, more, List.filter_append, List.filter_append, all] at kept
  rw [printed, List.append_cancel_left kept]

/-- Feeding in a program chunk by chunk does what running it as one text does. Every line but the last
of its chunk is waited behind, and behind the last one nothing is left; when no error is reported and
every write succeeds, the run of all lines leaves the same frames, but for the places in functions, and
the same input, and it writes what the session wrote without the values that were shown. -/
theorem feed_chunks_runs_text (fuel : Nat) (session : Session) (chunks : List (List Bytes))
    (each : ∀ chunk ∈ chunks, Chunk chunk) (kept : session.buffer = []) :
    (∀ before chunk behind front line back reached, chunks = before ++ chunk :: behind → chunk = front ++ line :: back →
      session.feedLines fuel (before.flatten ++ front) = some reached →
      (back ≠ [] → reached.feed fuel line false =
        some (true, { reached with buffer := reached.buffer ++ line ++ Bytes.newline })) ∧
      (back = [] → ∀ more after, reached.feed fuel line false = some (more, after) →
        more = false ∧ after.buffer = [])) ∧
    ∀ fed, session.feedLines fuel chunks.flatten = some fed → Quiet fuel session chunks →
      session.machine.output.sink = .unlimited →
      ∃ enough, ∀ spent, enough ≤ spent → ∃ ran, session.run spent (.ofLines chunks.flatten) = some ran ∧
        ran.machine.heap.relocate Position.forget = fed.machine.heap.relocate Position.forget ∧
        ran.machine.globals = fed.machine.globals ∧ ran.machine.input = fed.machine.input ∧
        ∃ added, fed.machine.output.writes.toList = session.machine.output.writes.toList ++ added ∧
          ran.machine.output.writes.toList = session.machine.output.writes.toList ++ added.filter Write.isPrinted := by
  constructor
  · intro before chunk behind front line back reached split same fed
    have here : Chunk chunk := each chunk (by simp [split])
    rw [feedLines_append] at fed
    obtain ⟨middle, first, others⟩ := Option.bind_eq_some_iff.mp fed
    have cleared : middle.buffer = [] := feedChunks_buffer (fun chunk member => each chunk (by simp [split, member])) kept first
    have waits : middle.feedLines fuel front = some { middle with buffer := buffered front } :=
      feedLines_waits here (show chunk = [] ++ (front ++ line :: back) from same) (List.cons_ne_nil line back) cleared
    rw [waits] at others
    cases others
    constructor
    · intro more
      rw [feed_waits here same more rfl, buffered_snoc]
    · intro none more after ends
      rw [none] at same
      exact feed_completes_result here same rfl ends
  · intro fed ends quiet unlimited
    have ran := feedChunks_ran each kept unlimited ends quiet
    have read := Program.isRead_lines fun chunk member => ⟨(each chunk member).nonempty, (each chunk member).valid⟩
    have finishes := ran.finishes
    rw [← read.2] at finishes
    obtain ⟨machine, ⟨enough, ended⟩, same⟩ := finishes.of_plain
    refine ⟨enough, fun spent more => ?_⟩
    obtain ⟨added, wrote⟩ := ran.wrote
    refine ⟨session.settle machine, run_finishes read.1 (executeAll_more more ended), ?_, ?_, ?_, added, wrote, ?_⟩
    · exact congrArg Machine.heap same
    · change machine.plain.globals = fed.machine.plain.globals
      rw [same]
    · change machine.plain.input = fed.machine.plain.input
      rw [same]
    · exact printed_same same (executeAll_wrote ended) wrote

/-- `print(` and `"a");` in two lines, and then `"b";`, the value of which is shown. -/
def greeting : List (List Bytes) :=
  [[[0x70, 0x72, 0x69, 0x6E, 0x74, 0x28], [0x22, 0x61, 0x22, 0x29, 0x3B]], [[0x22, 0x62, 0x22, 0x3B]]]

theorem greeting_runs : (∀ chunk ∈ greeting, Chunk chunk) ∧
    ∃ fed, (start {}).feedLines 20 greeting.flatten = some fed ∧ Quiet 20 (start {}) greeting ∧
      fed.machine.output.writes.toList = [.printed [0x61, 0x0A], .echoed [0x62, 0x0A]] ∧
      ∃ enough, ∀ spent, enough ≤ spent → ∃ ran, (start {}).run spent (.ofLines greeting.flatten) = some ran ∧
        ran.machine.output.writes.toList = [.printed [0x61, 0x0A]] := by
  have each : ∀ chunk ∈ greeting, Chunk chunk := by decide +kernel
  have shown : ((start {}).feedLines 20 greeting.flatten).map (fun fed => fed.machine.output.writes.toList) =
      some [.printed [0x61, 0x0A], .echoed [0x62, 0x0A]] := by decide +kernel
  have first : ((start {}).feedLines 20 (greeting.take 1).flatten).map (fun fed => fed.reporter.hadRuntimeError) =
      some false := by decide +kernel
  have second : ((start {}).feedLines 20 greeting.flatten).map (fun fed => fed.reporter.hadRuntimeError) =
      some false := by decide +kernel
  have quiet : Quiet 20 (start {}) greeting := by
    intro before chunk behind reached split _ ends
    match before with
    | [] =>
      cases split
      change (start {}).feedLines 20 (greeting.take 1).flatten = some reached at ends
      rw [ends] at first
      exact Option.some.inj first
    | [_] =>
      cases split
      change (start {}).feedLines 20 greeting.flatten = some reached at ends
      rw [ends] at second
      exact Option.some.inj second
    | _ :: _ :: _ => simp [greeting] at split
  obtain ⟨fed, ends, writes⟩ := Option.map_eq_some_iff.mp shown
  refine ⟨each, fed, ends, quiet, writes, ?_⟩
  obtain ⟨enough, runs⟩ := (feed_chunks_runs_text 20 (start {}) greeting each rfl).2 fed ends quiet rfl
  refine ⟨enough, fun spent more => ?_⟩
  obtain ⟨ran, run, _, _, _, added, wrote, printed⟩ := runs spent more
  refine ⟨ran, run, ?_⟩
  change _ = [] ++ added at wrote
  change _ = [] ++ added.filter Write.isPrinted at printed
  rw [writes, List.nil_append] at wrote
  rw [printed, List.nil_append, ← wrote]
  rfl

/-- `"a" //` and `;`: behind the first line a semicolon closes the expression, but not on that line. -/
def commentedLines : Bytes × Bytes := ([0x22, 0x61, 0x22, 0x20, 0x2F, 0x2F], [0x3B])

theorem commentedLines_run_early : (Program.ofSource (.ofLines [commentedLines.1, commentedLines.2])).errors = [] ∧
    isBlankText (.ofLines [commentedLines.1]) = false ∧ (Program.ofSource (.ofLines [commentedLines.1])).errors ≠ [] ∧
    (Program.ofSource (.ofLines [commentedLines.1] ++ utf8 ';')).errors ≠ [] ∧
    ((start {}).feed 20 commentedLines.1 false).map Prod.fst = some false := by
  decide +kernel

end Treewalk.Session
