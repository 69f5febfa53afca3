import Treewalk.Proofs.ProgramGrammar
import Treewalk.Proofs.SessionSteps
import Treewalk.Proofs.SourceCut
import Treewalk.Proofs.ViablePrefix

/-! The lines of a valid program, fed in one after another, are never refused early: what has been
fed in so far is complete, or it is known to be incomplete. -/

namespace Treewalk.Program
open Treewalk.Parser

theorem ofTokens_beginning {tokens more : List Token} {last mark : Token} (ends : last.isEnd = true)
    (cut : mark.isEnd = true) (inner : ∀ token ∈ tokens, token.isEnd = false)
    (others : ∀ token ∈ more, token.isEnd = false) (clean : (ofTokens (tokens ++ more ++ [last])).errors = []) :
    (ofTokens (tokens ++ [mark])).errors = [] ∨ Diagnostic.anyIncomplete (ofTokens (tokens ++ [mark])).errors = true := by
  have plain : ∀ token ∈ tokens ++ more, token.isEnd = false := by
    intro token member
    rcases List.mem_append.mp member with early | late
    · exact inner token early
    · exact others token late
  obtain ⟨enough, whole⟩ := ofTokens_declarations ends plain
  obtain ⟨enough', part⟩ := ofTokens_declarations cut inner
  have read := whole (enough + enough') (by omega)
  have begun := part (enough + enough') (by omega)
  rw [clean] at read
  rcases ((statementsViable (enough + enough')).declarations false).cuttable _ _ _ _ _ mark read cut with
    ⟨left, same, early⟩ | pending
  · rw [Reads, begun, Parsed.done.injEq] at early
    exact .inl early.2.1
  · rw [begun, pending_done] at pending
    exact pending.imp And.left id

/-- Cutting a valid source behind a newline leaves a valid or an incomplete one. -/
theorem ofSource_beginning (front back : Bytes) (clean : (ofSource (front ++ Bytes.newline ++ back)).errors = []) :
    (ofSource (front ++ Bytes.newline)).errors = [] ∨
      Diagnostic.anyIncomplete (ofSource (front ++ Bytes.newline)).errors = true := by
  unfold ofSource at clean ⊢
  dsimp only at clean ⊢
  obtain ⟨lexed, parsed⟩ := List.append_eq_nil_iff.mp clean
  rw [anyIncomplete_append]
  rcases scan_newline front back with opens | ⟨tokens, errors, stop, inner, part, whole⟩
  · rw [opens, Bool.true_or]
    exact .inr rfl
  · obtain ⟨more, faults, final, others, _, goesOn⟩ := Scan.ofPieces_append stop (Lexer.pieces (Glyph.decode back))
      fun piece member => Lexer.pieces_kind member
    have behind := goesOn []
    rw [List.append_nil] at behind
    rw [whole, behind] at lexed parsed
    rw [part]
    obtain ⟨rfl, _⟩ := List.append_eq_nil_iff.mp lexed
    rw [List.nil_append]
    have tokens_eq : tokens ++ (more ++ (Scan.ofPieces final []).tokens) = tokens ++ more ++ [.endAt final] := by
      simp [Scan.ofPieces]
    rw [tokens_eq] at parsed
    exact (ofTokens_beginning rfl rfl inner others parsed).imp id fun incomplete => by rw [incomplete, Bool.or_true]

end Treewalk.Program

namespace Treewalk.Session

theorem settle_hadError (session : Session) (machine : Machine) :
    (session.settle machine).reporter.hadError = session.reporter.hadError := by
  have written : ∀ (events : List TraceEvent) (reporter : Reporter),
      (events.foldl (fun reporter event => reporter.write event.line) reporter).hadError = reporter.hadError := by
    intro events
    induction events with
    | nil => exact fun _ => rfl
    | cons event events ih => exact fun reporter => ih _
  unfold settle
  dsimp only
  rw [← Array.foldl_toList]
  exact written machine.trace.toList session.reporter

theorem reportInterrupt_hadError (reporter : Reporter) (interrupt : Interrupt) :
    (reporter.reportInterrupt interrupt).hadError = reporter.hadError := by
  unfold Reporter.reportInterrupt
  cases interrupt.runtimeError? with
  | some error =>
    unfold Reporter.reportRuntimeError
    dsimp only
    split <;> rfl
  | none => rfl

theorem perform_hadError {α : Type} {session after : Session} {computation : Run α} {result : Except Interrupt α}
    (ends : session.perform computation = some (result, after)) : after.reporter.hadError = session.reporter.hadError := by
  rcases perform_cases ends with ⟨_, machine, _, _, rfl⟩ | ⟨cause, machine, _, _, rfl⟩
  · exact settle_hadError session machine
  · exact (reportInterrupt_hadError _ cause).trans (settle_hadError session machine)

/-- Running a valid source reports no error in its text. -/
theorem evaluate_hadError {fuel : Nat} {session after : Session} {source : Bytes} {value : Option Value}
    (clean : (Program.ofSource source).errors = []) (ends : session.evaluate fuel source = some (value, after)) :
    after.reporter.hadError = session.reporter.hadError := by
  rcases evaluate_cases ends with ⟨faulty, _⟩ | ⟨_, ⟨_, _, _, performed, _⟩ | ⟨_, ran, _⟩⟩
  · exact absurd clean faulty
  · exact perform_hadError performed
  · exact perform_hadError ran

theorem echo_reporter (session : Session) (value : Option Value) :
    (session.echo value).reporter = session.reporter := by
  obtain ⟨output, shown⟩ := echo_output session value
  rw [shown]

/-- What is run for a source that is valid or incomplete is valid. -/
theorem completed_valid {source : Bytes}
    (begun : (Program.ofSource source).errors = [] ∨ Diagnostic.anyIncomplete (Program.ofSource source).errors = true) :
    completed source false = none ∨ ∃ text, completed source false = some text ∧ (Program.ofSource text).errors = [] ∧
      (text = source ∨ text = source ++ utf8 ';') := by
  unfold completed
  rcases begun with clean | incomplete
  · rw [clean]
    exact .inr ⟨source, rfl, clean, .inl rfl⟩
  · rw [incomplete, if_pos rfl]
    dsimp only
    split
    next closed => exact .inr ⟨_, rfl, List.isEmpty_iff.mp closed, .inr rfl⟩
    next => exact .inl rfl

/-- The beginning of a valid program is never refused. Cut behind a newline it is valid or incomplete,
so that feeding it in forgets a blank text, waits for more, or runs a valid one. -/
theorem feed_never_refuses :
    (∀ front back, (Program.ofSource (front ++ Bytes.newline ++ back)).errors = [] →
      (Program.ofSource (front ++ Bytes.newline)).errors = [] ∨
        Diagnostic.anyIncomplete (Program.ofSource (front ++ Bytes.newline)).errors = true) ∧
    ∀ fuel (session : Session) line back,
      (Program.ofSource (session.buffer ++ line ++ Bytes.newline ++ back)).errors = [] →
      (isBlankText (session.buffer ++ line ++ Bytes.newline) = true ∧
        session.feed fuel line false = some (false, { session with buffer := [] })) ∨
      session.feed fuel line false = some (true, { session with buffer := session.buffer ++ line ++ Bytes.newline }) ∨
      ∃ text, (Program.ofSource text).errors = [] ∧
        (text = session.buffer ++ line ++ Bytes.newline ∨ text = session.buffer ++ line ++ Bytes.newline ++ utf8 ';') ∧
        session.feed fuel line false =
          (({ session with buffer := [], reporter := session.reporter.reset } : Session).evaluate fuel text).map
            (fun (value, after) => (false, after.echo value)) ∧
        ∀ more after, session.feed fuel line false = some (more, after) → after.reporter.hadError = false := by
  refine ⟨Program.ofSource_beginning, ?_⟩
  intro fuel session line back clean
  have begun := Program.ofSource_beginning _ _ clean
  unfold feed
  dsimp only
  by_cases blank : isBlankText (session.buffer ++ line ++ Bytes.newline) = true
  · rw [if_pos blank]
    exact .inl ⟨blank, rfl⟩
  · rw [if_neg blank]
    rcases completed_valid begun with waits | ⟨text, runs, valid, same⟩
    · rw [waits]
      exact .inr (.inl rfl)
    · rw [runs]
      refine .inr (.inr ⟨text, valid, same, rfl, ?_⟩)
      intro more after ends
      obtain ⟨⟨value, evaluated⟩, ran, shown⟩ := Option.map_eq_some_iff.mp ends
      cases shown
      rw [echo_reporter]
      exact evaluate_hadError valid ran

/-- The two lines of a string that holds a newline. -/
def stringLines : Bytes × Bytes := ([0x22, 0x61], [0x62, 0x22, 0x3B])

theorem stringLines_wait : (Program.ofSource (stringLines.1 ++ Bytes.newline ++ stringLines.2)).errors = [] ∧
    Diagnostic.anyIncomplete (Program.ofSource (stringLines.1 ++ Bytes.newline)).errors = true ∧
    (start {}).feed 9 stringLines.1 false = some (true, { start {} with buffer := stringLines.1 ++ Bytes.newline }) := by
  have valid : (Program.ofSource (stringLines.1 ++ Bytes.newline ++ stringLines.2)).errors = [] := by decide +kernel
  have invalid : (Program.ofSource (stringLines.1 ++ Bytes.newline)).errors ≠ [] := by decide +kernel
  have unclosed : (Program.ofSource (stringLines.1 ++ Bytes.newline ++ utf8 ';')).errors ≠ [] := by decide +kernel
  obtain ⟨cuts, feeds⟩ := feed_never_refuses
  refine ⟨valid, (cuts _ _ valid).resolve_left invalid, ?_⟩
  rcases feeds 9 (start {}) stringLines.1 stringLines.2 valid with ⟨blank, _⟩ | waits | ⟨text, clean, rfl | rfl, _⟩
  · exact absurd blank (by decide +kernel)
  · exact waits
  · exact absurd clean invalid
  · exact absurd clean unclosed

end Treewalk.Session
