import Treewalk.Proofs.ParserBraces
import Treewalk.Proofs.ProgramGrammar
import Treewalk.Proofs.RegularSessions
import Treewalk.Proofs.SourceTiling

/-! Errors point into the source. Every node of a tree stands where a token of the source stands, also the
nodes that an assignment sign or an increment is short for, and a run takes its errors from nodes. Only an
error of a running program that the reader or the writer hands over is left as it came. -/

namespace Treewalk

def Stmt.IsReadable : Stmt → Prop
  | print _ | hole => False
  | expression _ | declare _ _ | block _ _ | branch _ _ _ _ | loop _ _ _ _ | breakLoop _ | continueLoop _ | function _ _ _
  | returnValue _ _ => True

section

variable (places : Position → Prop)

/-- All nodes of an expression are at such places. -/
inductive Expr.Located : Expr → Prop where
  | node {expr : Expr} (filled : expr ≠ .hole) (here : places expr.pos) (parts : ∀ part ∈ expr.parts, part.Located) :
      Located expr

inductive Stmt.Located : Stmt → Prop where
  | node {stmt : Stmt} (readable : stmt.IsReadable) (here : places stmt.pos)
      (exprs : ∀ expr ∈ stmt.exprs, expr.Located places) (parts : ∀ place, ∀ part ∈ stmt.parts place, part.2.Located) :
      Located stmt

def Value.Located : Value → Prop
  | callable (.function closure) => ∀ stmt ∈ closure.body, stmt.Located places
  | callable (.native builtin) => ∃ name, (name, builtin.arity, builtin.primitive) ∈ Machine.builtins
  | null | bool _ | number _ | string _ | hollow | foreign | uninitialized => True

/-- A failure of the program at such a place. -/
def Interrupt.FailsAt (cause : Interrupt) : Prop :=
  ∃ error, cause = .failure error ∧ places error.token.pos

end

variable {places : Position → Prop}

namespace Expr.Located

variable {expr : Expr}

theorem filled : expr.Located places → expr ≠ .hole
  | node filled _ _ => filled

theorem here : expr.Located places → places expr.pos
  | node _ here _ => here

theorem parts : expr.Located places → ∀ part ∈ expr.parts, part.Located places
  | node _ _ parts => parts

end Expr.Located

namespace Stmt.Located

variable {stmt : Stmt}

theorem readable : stmt.Located places → stmt.IsReadable
  | node readable _ _ _ => readable

theorem here : stmt.Located places → places stmt.pos
  | node _ here _ _ => here

theorem exprs : stmt.Located places → ∀ expr ∈ stmt.exprs, expr.Located places
  | node _ _ exprs _ => exprs

theorem parts : stmt.Located places → ∀ place, ∀ part ∈ stmt.parts place, part.2.Located places
  | node _ _ _ parts => parts

end Stmt.Located

namespace Parser

/-- Trees built from tokens at such places are located there. -/
theorem building_located :
    (building (fun token => places token.pos) (Expr.Located places) (Stmt.Located places)).KeepsTrees where
  kind same := by rw [same.1]
  lexeme same := by rw [same.1]
  operatorAt := by
    rintro t _ kind ⟨rfl, here⟩
    exact ⟨rfl, here⟩
  constant := by
    rintro t _ value _ ⟨rfl, here⟩
    exact ⟨rfl, .node Expr.noConfusion here (by simp [Expr.parts])⟩
  spelled := by
    rintro t _ ⟨rfl, here⟩
    exact ⟨rfl, .node Expr.noConfusion here (by simp [Expr.parts])⟩
  name := by
    rintro t _ ⟨rfl, here⟩
    exact ⟨rfl, .node Expr.noConfusion here (by simp [Expr.parts])⟩
  target := by
    rintro _ f ⟨rfl, located⟩
    cases f with
    | name t => exact .inl ⟨t, t, rfl, rfl, rfl, located.here⟩
    | _ => exact .inr ⟨fun _ => Expr.noConfusion, fun _ => Expr.noConfusion⟩
  assign := by
    rintro t _ e _ ⟨rfl, here⟩ ⟨rfl, value⟩
    exact ⟨rfl, .node Expr.noConfusion here (by simpa [Expr.parts] using value)⟩
  ternary := by
    rintro c _ e _ g _ ⟨rfl, condition⟩ ⟨rfl, first⟩ ⟨rfl, second⟩
    exact ⟨rfl, .node Expr.noConfusion condition.here (by simp [Expr.parts, condition, first, second])⟩
  logical := by
    rintro e _ t _ g _ ⟨rfl, left⟩ ⟨rfl, here⟩ ⟨rfl, right⟩
    exact ⟨rfl, .node Expr.noConfusion here (by simp [Expr.parts, left, right])⟩
  binary := by
    rintro e _ t _ g _ ⟨rfl, left⟩ ⟨rfl, here⟩ _ ⟨rfl, right⟩
    exact ⟨rfl, .node Expr.noConfusion here (by simp [Expr.parts, left, right])⟩
  unary := by
    rintro t _ e _ ⟨rfl, here⟩ _ ⟨rfl, operand⟩
    exact ⟨rfl, .node Expr.noConfusion here (by simp [Expr.parts, operand])⟩
  group := by
    rintro e _ ⟨rfl, inner⟩
    exact ⟨rfl, .node Expr.noConfusion inner.here (by simp [Expr.parts, inner])⟩
  call := by
    rintro e _ t _ es _ ⟨rfl, callee⟩ ⟨rfl, here⟩ each
    obtain ⟨rfl, arguments⟩ := forall₂_same each
    exact ⟨rfl, .node Expr.noConfusion here (List.forall_mem_cons.mpr ⟨callee, arguments⟩)⟩
  expression := by
    rintro e _ ⟨rfl, value⟩
    exact ⟨rfl, .node trivial value.here (by simp [Stmt.exprs, value]) (by simp [Stmt.parts])⟩
  declare := by
    rintro t _ e _ ⟨rfl, here⟩ each
    obtain ⟨rfl, initial⟩ := rel_same each
    exact ⟨rfl, .node trivial here (by simpa [Stmt.exprs] using initial) (by simp [Stmt.parts])⟩
  block := by
    rintro t _ ss _ ⟨rfl, here⟩ each
    obtain ⟨rfl, body⟩ := forall₂_same each
    exact ⟨rfl, .node trivial here (by simp [Stmt.exprs]) fun _ => by simpa [Stmt.parts] using body⟩
  branch := by
    rintro e _ s _ a _ t _ ⟨rfl, condition⟩ ⟨rfl, consequence⟩ each ⟨rfl, here⟩
    obtain ⟨rfl, alternative⟩ := rel_same each
    refine ⟨rfl, .node trivial here (by simp [Stmt.exprs, condition]) fun _ => ?_⟩
    simpa [Stmt.parts, consequence] using alternative
  loop := by
    rintro e _ s _ a _ t _ ⟨rfl, condition⟩ ⟨rfl, body⟩ each ⟨rfl, here⟩
    obtain ⟨rfl, post⟩ := rel_same each
    refine ⟨rfl, .node trivial here (by simp [Stmt.exprs, condition]) fun _ => ?_⟩
    simpa [Stmt.parts, body] using post
  breakLoop := by
    rintro t _ ⟨rfl, here⟩
    exact ⟨rfl, .node trivial here (by simp [Stmt.exprs]) (by simp [Stmt.parts])⟩
  continueLoop := by
    rintro t _ ⟨rfl, here⟩
    exact ⟨rfl, .node trivial here (by simp [Stmt.exprs]) (by simp [Stmt.parts])⟩
  function := by
    rintro t _ ts _ ss _ ⟨rfl, here⟩ names each
    obtain ⟨rfl, _⟩ := forall₂_same names
    obtain ⟨rfl, body⟩ := forall₂_same each
    exact ⟨rfl, .node trivial here (by simp [Stmt.exprs]) fun _ => by simpa [Stmt.parts] using body⟩
  returnValue := by
    rintro t _ e _ ⟨rfl, here⟩ each
    obtain ⟨rfl, result⟩ := rel_same each
    exact ⟨rfl, .node trivial here (by simpa [Stmt.exprs] using result) (by simp [Stmt.parts])⟩

end Parser

namespace Machine

/-- The host of the machine hands over an error that is or holds one of a running program, and it passes as it is. -/
def Relays (machine : Machine) (cause : Interrupt) : Prop :=
  cause.runtimeError? ≠ none ∧ ∃ error, machine.HandsOver error ∧ cause = error.interrupt

section

variable (places : Position → Prop) (host : Machine)

/-- How an expression fails: at such a place, or with an error that the host of the machine relays. -/
def Fails (cause : Interrupt) : Prop :=
  cause.FailsAt places ∨ host.Relays cause

/-- What leaves a statement: a failure, or a signal whose keyword is at such a place. -/
def LeavesFrom : Interrupt → Prop
  | .breakLoop keyword | .continueLoop keyword => places keyword.pos
  | .returnValue keyword value => places keyword.pos ∧ value.Located places
  | cause => Fails places host cause

/-- The kinship of runs of located trees. A failure of the outside world that holds no error of a running
program is bare only inside a built-in function. -/
def locating : Kinship where
  machine := Kinship.Alone (Value.Located places) host.HandsOver
  handed := host.HandsOver
  value := Value.Located places
  expr := Expr.Located places
  stmt _ := Stmt.Located places
  fault := Fails places host
  raised cause := Fails places host cause ∨ ∃ fault : HostFault, fault.held? = none ∧ cause = .host fault
  leaves _ := LeavesFrom places host
  cut := False

end

variable {host : Machine}

/-- An error that is handed over holds one of a running program, or is a bare failure. -/
private theorem handed_fails {error : HostError} (handed : host.HandsOver error) :
    Fails places host error.interrupt ∨ ∃ fault : HostFault, fault.held? = none ∧ error.interrupt = .host fault := by
  cases error with
  | own message => exact .inr ⟨_, rfl, rfl⟩
  | wrapping text token message hint | raised token message hint => exact .inl (.inr ⟨nofun, _, handed, rfl⟩)

private theorem builtin_fails {builtin : Native} {arguments : List Value} {machine after : Machine} {cause : Interrupt}
    (listed : ∃ name, (name, builtin.arity, builtin.primitive) ∈ builtins)
    (hands : ∀ error, machine.HandsOver error → host.HandsOver error)
    (fails : invoke 1 (.native builtin) arguments machine = .interrupted cause after) :
    Fails places host cause ∨ ∃ fault : HostFault, fault.held? = none ∧ cause = .host fault := by
  rcases native_interrupt fails with bare | ⟨error, handed, rfl⟩ | ⟨raises, _⟩
  · exact .inr bare
  · exact handed_fails (hands error handed)
  · obtain ⟨name, listed⟩ := listed
    rw [raises] at listed
    simp [builtins] at listed

/-- What fails inside a built-in function is located at the call, unless it is an error of a running program. -/
private theorem shown_fails {paren : Token} {cause : Interrupt} (here : places paren.pos)
    (raised : Fails places host cause ∨ ∃ fault : HostFault, fault.held? = none ∧ cause = .host fault) :
    Fails places host (cause.atCall paren) := by
  rcases atCall_cases cause paren with ⟨holds, passed⟩ | ⟨fault, _, shown⟩
  · rw [passed]
    rcases raised with fails | ⟨fault, held, rfl⟩
    · exact fails
    · exact absurd held holds
  · rw [shown]
    exact .inl ⟨_, rfl, here⟩

private theorem escaped_fails {cause : Interrupt} (leaves : LeavesFrom places host cause) :
    Fails places host cause.escaped := by
  cases cause with
  | breakLoop keyword | continueLoop keyword => exact .inl ⟨_, rfl, leaves⟩
  | returnValue keyword value => exact .inl ⟨_, rfl, leaves.1⟩
  | failure error | host fault => exact leaves

private theorem fails_leaves {cause : Interrupt} (fails : Fails places host cause) : LeavesFrom places host cause := by
  cases cause with
  | failure error | host fault => exact fails
  | breakLoop keyword | continueLoop keyword | returnValue keyword value =>
    rcases fails with ⟨error, impossible, _⟩ | ⟨holds, _⟩
    · cases impossible
    · exact absurd rfl holds

private theorem locating_interrupts : (locating places host).KeepsInterrupts where
  name located _ := .inl ⟨_, rfl, located.here⟩
  target located _ := .inl ⟨_, rfl, located.here⟩
  operands located fails := .inl ⟨_, rfl, by rw [(Operator.binary_error fails).1]; exact located.here⟩
  operand located fails := .inl ⟨_, rfl, by rw [(Operator.unary_error fails).1]; exact located.here⟩
  call _ located _ := .inl ⟨_, rfl, located.here⟩
  missingExpression located := absurd rfl located.filled
  native located _ hands fails := builtin_fails located hands fails
  passed fails := .inl fails
  shown located raised := shown_fails located.here raised
  refused located _ := located.readable.elim
  missingStatement located := located.readable.elim
  breakLoop located := located.here
  continueLoop located := located.here
  returnValue located value := ⟨located.here, value⟩
  returned leaves := leaves.2
  thrown := fails_leaves
  unlooped leaves _ _ := leaves
  escaped leaves _ := escaped_fails leaves

private theorem locating_trees : (locating places host).KeepsTrees where
  parts := Expr.Located.parts
  exprs := Stmt.Located.exprs
  stmts located := located.parts _
  constant constant := by cases constant <;> trivial
  closure _ _ located := fun stmt inside => located.parts .top (.body, stmt) (by simpa [Stmt.parts] using inside)
  body located := located

theorem locating_lawful : (locating places host).Lawful :=
  ⟨locating_trees, Kinship.Alone.keeps rfl, locating_interrupts⟩

/-- A run of located trees on a new machine fails at one of the places or with what its host relays, if it fails. -/
theorem interpret_fails {options : Options} (plain : options.hostFunctions = false) {stmts : List Stmt}
    (trees : ∀ stmt ∈ stmts, stmt.Located places) {fuel : Nat} {cause : Interrupt} {after : Machine}
    (stops : interpret fuel stmts (start options) = .interrupted cause after) : Fails places (start options) cause := by
  have alone : (locating places (start options)).machine (start options) (start options) :=
    ⟨rfl, start_holds_builtins plain fun _ listed => .inl listed, fun _ => id⟩
  have fits : (locating places (start options)).Fits .top (.executeAll stmts) := trees
  obtain ⟨raised, last, ended, rfl, _⟩ := interpret_interrupted stops
  exact escaped_fails (locating_lawful.stops id ended fits alone).1

end Machine

namespace Program

def Places (source : Bytes) (pos : Position) : Prop :=
  ∃ token ∈ (scan source).tokens, token.pos = pos

theorem lastToken_mem (source : Bytes) : lastToken (scan source).tokens ∈ (scan source).tokens := by
  obtain ⟨front, stop, tokens, _, kinds⟩ := (scan_tiling source).ends
  have inner : ∀ token ∈ front, token.isEnd = false := fun token member => beq_false_of_ne (kinds token member).1
  rw [tokens, lastToken_append rfl inner]
  exact List.mem_append_right _ (List.mem_singleton_self _)

theorem ofSource_located (source : Bytes) : ∀ stmt ∈ (ofSource source).statements, stmt.Located (Places source) :=
  Parser.ofTokens_built_upTo Parser.building_located ⟨_, lastToken_mem source, rfl⟩ fun token member => ⟨token, member, rfl⟩

/-- An error of grammar is at a token of the source. -/
theorem ofTokens_errors (source : Bytes) :
    ∀ error ∈ (ofTokens (scan source).tokens).errors, error.IsAmong (scan source).tokens := by
  have ending := lastToken_mem source
  unfold ofTokens
  dsimp only
  split
  next read =>
    intro error member
    refine (Parser.declarations_located read error member).more ?_
    exact List.append_subset.mpr ⟨List.takeWhile_subset _, List.cons_subset.mpr ⟨ending, List.nil_subset _⟩⟩
  next read =>
    rcases Parser.declarations_stop false _ _ _ with none | ⟨_, _, _, done, _⟩
    · cases none.symm.trans read
    · cases done.symm.trans read
  next => exact fun error none => nomatch none

theorem ofSource_errors (source : Bytes) : ∀ error ∈ (ofSource source).errors,
    if error.lexical then error.token.pos.offset ≤ source.length else error.token ∈ (scan source).tokens := by
  intro error member
  rcases List.mem_append.mp member with lexed | parsed
  · have within := (scan_tiling source).error_within error lexed
    rw [List.nil_append, Glyph.encode_decode] at within
    rw [if_pos within.1]
    exact within.2
  · have among := ofTokens_errors source error parsed
    rw [if_neg (by simp [among.1])]
    exact among.2

end Program

/-- All that is reported about a source points into it: its trees and its errors, and the failure of a run on a
new machine, unless the reader or the writer hands over an error of a running program. -/
theorem Session.reports_point_into_source {options : Machine.Options} (plain : options.hostFunctions = false) (source : Bytes) :
    (∀ stmt ∈ (Program.ofSource source).statements, stmt.Located (Program.Places source)) ∧
    (∀ error ∈ (Program.ofSource source).errors,
      if error.lexical then error.token.pos.offset ≤ source.length else error.token ∈ (scan source).tokens) ∧
    ∀ fuel cause after, Machine.interpret fuel (Program.ofSource source).statements (Session.start options).machine =
      .interrupted cause after →
        (∃ error, cause = .failure error ∧ ∃ token ∈ (scan source).tokens, token.pos = error.token.pos) ∨
        (Session.start options).machine.Relays cause :=
  ⟨Program.ofSource_located source, Program.ofSource_errors source,
    fun _ _ _ => Machine.interpret_fails plain (Program.ofSource_located source)⟩

/-- `print("a");` -/
def printSource : Bytes :=
  .ofString "print(\"a\");"

/-- The program with an output that takes nothing. -/
theorem Session.refusedPrint_points_into_source :
    ({ allowance := some 0 } : Machine.Options).hostFunctions = false ∧ ∃ error after,
      Machine.interpret 20 (Program.ofSource printSource).statements (Session.start { allowance := some 0 }).machine =
        .interrupted (.failure error) after ∧ error.cause = .host (.custom (.ofString "host write failure")) ∧
      ∃ token ∈ (scan printSource).tokens, token.pos = error.token.pos := by
  have fails : ((Machine.interpret 20 (Program.ofSource printSource).statements
      (Session.start { allowance := some 0 }).machine).error?.map (·.cause)) =
        some (.host (.custom (.ofString "host write failure"))) := by
    decide +kernel
  obtain ⟨error, found, cause⟩ := Option.map_eq_some_iff.mp fails
  obtain ⟨after, stops⟩ := Outcome.of_error? found
  refine ⟨rfl, error, after, stops, cause, ?_⟩
  rcases (reports_point_into_source rfl printSource).2.2 20 _ after stops with ⟨_, same, here⟩ | ⟨_, handed, _, relayed⟩
  · cases same
    exact here
  · -- An error that the host hands over has a cause of its own.
    cases handed <;> cases relayed
    cases cause

def farError : RuntimeError :=
  ⟨{ kind := .identifier, lexeme := .ofString "far", pos := ⟨0, 77, 1⟩ }, .custom (.ofString "no") []⟩

def Session.refusing (error : HostError) : Session :=
  .start { sink := .closed error }

/-- With a writer that hands over an error of a running program, the program fails where no token of its
source stands; and it fails with no such error itself when the writer only wraps one. -/
theorem Session.relayedError_points_elsewhere :
    (∃ error after, Machine.interpret 20 (Program.ofSource printSource).statements
        (refusing (.raised farError.token (.ofString "no") [])).machine = .interrupted (.failure error) after ∧
      ∀ token ∈ (scan printSource).tokens, token.pos ≠ error.token.pos) ∧
    ∃ cause after, Machine.interpret 20 (Program.ofSource printSource).statements
        (refusing (.wrapping (.ofString "lost") farError.token (.ofString "no") [])).machine = .interrupted cause after ∧
      ∀ error, cause ≠ .failure error := by
  constructor
  · have fails : (Machine.interpret 20 (Program.ofSource printSource).statements
        (refusing (.raised farError.token (.ofString "no") [])).machine).error? = some farError := by decide +kernel
    obtain ⟨after, stops⟩ := Outcome.of_error? fails
    exact ⟨farError, after, stops, by decide +kernel⟩
  · have told : (Machine.interpret 20 (Program.ofSource printSource).statements
        (refusing (.wrapping (.ofString "lost") farError.token (.ofString "no") [])).machine).interrupt?.map
          Interrupt.hostText = some (.ofString "lost") := by decide +kernel
    obtain ⟨cause, found, text⟩ := Option.map_eq_some_iff.mp told
    obtain ⟨after, stops⟩ := Outcome.of_interrupt? found
    refine ⟨cause, after, stops, ?_⟩
    rintro error rfl
    -- The text of such an error starts with its line.
    cases text

end Treewalk
