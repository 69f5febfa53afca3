import Treewalk.Proofs.ParserReading

/-! Reading the beginning of something that can be read. Up to the cut nothing is different; at the
cut a rule either can stop, or misses something at the end of the input. Errors of other kinds were
reported before the cut, and so would have been reported without it. -/

namespace Treewalk.Parser

/-- Nothing but more input can be missing: the tokens are used up without an error, or some error was
found at their end. -/
def Pending {α : Type} : Parsed α → Prop
  | .done _ errors rest => (errors = [] ∧ rest = []) ∨ Diagnostic.anyIncomplete errors = true
  | .failed errors _ => Diagnostic.anyIncomplete errors = true
  | .exhausted => True

theorem pending_done {α : Type} {value : α} {errors : List Diagnostic} {rest : List Token} :
    Pending (.done value errors rest) ↔ (errors = [] ∧ rest = []) ∨ Diagnostic.anyIncomplete errors = true :=
  Iff.rfl

/-- Without any tokens the parser is pending. -/
def PendsAtEnd {α : Type} (parser : Parser α) : Prop :=
  ∀ last, last.isEnd = true → Pending (parser last [])

/-- Where the parser reads something, it reads the same up to a cut behind it, and is pending at a cut
inside it. -/
def Cuttable {α : Type} (parser : Parser α) : Prop :=
  ∀ last tokens behind value rest mark, Reads parser last (tokens ++ behind) value rest → mark.isEnd = true →
    (∃ left, rest = left ++ behind ∧ Reads parser mark tokens value left) ∨ Pending (parser mark tokens)

/-- Both at once, which is what may follow something that stopped at the cut. -/
structure Viable {α : Type} (parser : Parser α) : Prop where
  cuttable : Cuttable parser
  pends : PendsAtEnd parser

theorem anyIncomplete_append {first second : List Diagnostic} : Diagnostic.anyIncomplete (first ++ second) =
    (Diagnostic.anyIncomplete first || Diagnostic.anyIncomplete second) :=
  List.any_append

/-- An error at the end is not taken back by what follows. -/
theorem pending_after {α : Type} {errors : List Diagnostic} (incomplete : Diagnostic.anyIncomplete errors = true)
    (later : Parsed α) : Pending (later.reportedAfter errors) := by
  have kept : ∀ more, Diagnostic.anyIncomplete (errors ++ more) = true := by
    intro more
    rw [anyIncomplete_append, incomplete, Bool.true_or]
  cases later with
  | exhausted => trivial
  | done value more rest => exact .inr (kept more)
  | failed more rest => exact kept more

section Parts

variable {α β : Type}

/-- A parser that is pending stays so, when what follows is pending at the end. -/
theorem pending_bind {parser : Parser α} {next : α → Parser β} {last : Token} {tokens : List Token}
    (ends : last.isEnd = true) (first : Pending (parser last tokens)) (rest : ∀ value, PendsAtEnd (next value)) :
    Pending ((parser >>= next) last tokens) := by
  change Pending (andThen parser next last tokens)
  unfold andThen
  cases outcome : parser last tokens with
  | exhausted => trivial
  | failed errors left =>
    rw [outcome] at first
    exact first
  | done value errors left =>
    rw [outcome] at first
    rcases first with ⟨rfl, rfl⟩ | incomplete
    · dsimp only
      rw [Parsed.reportedAfter_nil]
      exact rest value last ends
    · exact pending_after incomplete _

theorem Cuttable.bind {parser : Parser α} {next : α → Parser β} (first : Cuttable parser)
    (rest : ∀ value, Viable (next value)) : Cuttable (parser >>= next) := by
  intro last tokens behind value final mark read ends
  obtain ⟨middle, left, one, two⟩ := reads_bind.mp read
  rcases first _ _ _ _ _ mark one ends with ⟨left, rfl, same⟩ | pending
  · rcases (rest middle).cuttable _ _ _ _ _ mark two ends with ⟨final, rfl, later⟩ | pending
    · exact .inl ⟨final, rfl, reads_bind.mpr ⟨middle, left, same, later⟩⟩
    · refine .inr ?_
      change Pending (andThen parser next mark tokens)
      unfold andThen
      rw [show parser mark tokens = .done middle [] left from same]
      dsimp only
      rw [Parsed.reportedAfter_nil]
      exact pending
  · exact .inr (pending_bind ends pending fun value => (rest value).pends)

theorem Viable.bind {parser : Parser α} {next : α → Parser β} (first : Viable parser)
    (rest : ∀ value, Viable (next value)) : Viable (parser >>= next) where
  cuttable := first.cuttable.bind rest
  pends last ends := pending_bind ends (first.pends last ends) fun value => (rest value).pends

theorem viable_pure (value : α) : Viable (pure value) where
  cuttable := by
    intro last tokens behind found rest mark read ends
    obtain ⟨rfl, rfl⟩ := reads_succeed.mp read
    exact .inl ⟨tokens, rfl, reads_succeed.mpr ⟨rfl, rfl⟩⟩
  pends _ _ := .inl ⟨rfl, rfl⟩

theorem viable_outOfSteps : Viable (outOfSteps : Parser α) where
  cuttable := fun _ _ _ _ _ _ read => absurd read reads_outOfSteps
  pends _ _ := trivial

/-- A parser that never reads anything without an error can be cut anywhere. -/
theorem cuttable_of_not_reads {parser : Parser α} (never : ∀ last tokens value rest, ¬ Reads parser last tokens value rest) :
    Cuttable parser :=
  fun _ _ _ _ _ _ read => absurd read (never _ _ _ _)

theorem accept_nil (kinds : List TokenKind) (next : Option Token → Parser β) (last : Token) :
    (accept kinds >>= next) last [] = next none last [] := by
  change andThen (accept kinds) next last [] = _
  simp [andThen, accept]

theorem accept_cons (kinds : List TokenKind) (next : Option Token → Parser β) (last token : Token) (rest : List Token) :
    (accept kinds >>= next) last (token :: rest) =
      if token.kind ∈ kinds then next (some token) last rest else next none last (token :: rest) := by
  change andThen (accept kinds) next last (token :: rest) = _
  by_cases member : token.kind ∈ kinds <;> simp [andThen, accept, member]

theorem Viable.bindAccept {kinds : List TokenKind} {next : Option Token → Parser β} (none : Viable (next none))
    (some : ∀ token, token.kind ∈ kinds → Cuttable (next (some token))) : Viable (accept kinds >>= next) where
  cuttable := by
    intro last tokens behind value rest mark read ends
    unfold Reads at read ⊢
    cases tokens with
    | nil =>
      rw [accept_nil]
      exact .inr (none.pends mark ends)
    | cons token tokens =>
      rw [List.cons_append, accept_cons] at read
      rw [accept_cons]
      by_cases member : token.kind ∈ kinds
      · rw [if_pos member] at read ⊢
        exact some token member last tokens behind value rest mark read ends
      · rw [if_neg member] at read ⊢
        exact none.cuttable last (token :: tokens) behind value rest mark read ends
  pends := by
    intro last ends
    rw [accept_nil]
    exact none.pends last ends

theorem pending_failed {last : Token} (ends : last.isEnd = true) (defect : Defect) (rest : List Token) :
    Pending (.failed [.grammar last defect] rest : Parsed α) := by
  change Diagnostic.anyIncomplete [.grammar last defect] = true
  simp [Diagnostic.anyIncomplete, Diagnostic.grammar, ends]

theorem expect_cons (kind : TokenKind) (defect : Defect) (next : Token → Parser β) (last token : Token) (rest : List Token) :
    (expect kind defect >>= next) last (token :: rest) =
      if token.kind = kind then next token last rest else .failed [.grammar token defect] (token :: rest) := by
  change andThen (expect kind defect) next last (token :: rest) = _
  unfold andThen expect
  rw [accept_cons]
  by_cases same : token.kind = kind
  · rw [if_pos (List.mem_singleton.mpr same), if_pos same]
    exact Parsed.reportedAfter_nil _
  · rw [if_neg (fun member => same (List.mem_singleton.mp member)), if_neg same]
    rfl

theorem Viable.bindExpect {kind : TokenKind} {defect : Defect} {next : Token → Parser β}
    (rest : ∀ token, Cuttable (next token)) : Viable (expect kind defect >>= next) where
  cuttable := by
    intro last tokens behind value final mark read ends
    unfold Reads at read ⊢
    cases tokens with
    | nil => exact .inr (pending_failed ends defect [])
    | cons token tokens =>
      rw [List.cons_append, expect_cons] at read
      rw [expect_cons]
      by_cases same : token.kind = kind
      · rw [if_pos same] at read ⊢
        exact rest token last tokens behind value final mark read ends
      · rw [if_neg same] at read
        cases read
  pends := by
    intro last ends
    exact pending_failed ends defect []

theorem nextIs_nil (kinds : List TokenKind) (yes no : Parser β) (last : Token) :
    (nextIs kinds >>= fun b => if b then yes else no) last [] = no last [] :=
  Parsed.reportedAfter_nil _

theorem nextIs_cons (kinds : List TokenKind) (yes no : Parser β) (last token : Token) (rest : List Token) :
    (nextIs kinds >>= fun b => if b then yes else no) last (token :: rest) =
      if token.kind ∈ kinds then yes last (token :: rest) else no last (token :: rest) := by
  change andThen (nextIs kinds) _ last (token :: rest) = _
  by_cases member : token.kind ∈ kinds <;> simp [andThen, nextIs, member]

/-- At the end of the tokens the answer is no. -/
theorem Viable.bindNextIs {kinds : List TokenKind} {yes no : Parser β} (first : Cuttable yes) (second : Viable no) :
    Viable (nextIs kinds >>= fun b => if b then yes else no) where
  cuttable := by
    intro last tokens behind value rest mark read ends
    cases tokens with
    | nil => exact .inr (nextIs_nil kinds yes no mark ▸ second.pends mark ends)
    | cons token tokens =>
      unfold Reads at read ⊢
      rw [List.cons_append, nextIs_cons] at read
      rw [nextIs_cons]
      by_cases member : token.kind ∈ kinds
      · rw [if_pos member] at read ⊢
        exact first last (token :: tokens) behind value rest mark read ends
      · rw [if_neg member] at read ⊢
        exact second.cuttable last (token :: tokens) behind value rest mark read ends
  pends := by
    intro last ends
    rw [nextIs_nil]
    exact second.pends last ends

theorem viable_checkCount (count : Nat) (defect : Defect) : Viable (checkCount count defect) where
  cuttable := by
    intro last tokens behind value rest mark read ends
    obtain ⟨rfl, few⟩ := reads_checkCount.mp read
    exact .inl ⟨tokens, rfl, reads_checkCount.mpr ⟨rfl, few⟩⟩
  pends := by
    intro last ends
    by_cases few : count < maxArguments
    · have read : Reads (checkCount count defect) last [] () [] := reads_checkCount.mpr ⟨rfl, few⟩
      rw [show checkCount count defect last [] = .done () [] [] from read]
      exact .inl ⟨rfl, rfl⟩
    · have reported : checkCount count defect last [] = .done () [.grammar last defect] [] := by
        unfold checkCount
        simp [bind, andThen, peek, few, report, Parsed.reportedAfter]
      rw [reported]
      exact .inr (by simp [Diagnostic.anyIncomplete, Diagnostic.grammar, ends])

theorem viable_noExpression : Viable noExpression where
  cuttable := cuttable_of_not_reads fun _ _ _ _ => reads_noExpression
  pends := by
    intro last ends
    have kind : last.kind = .eof := by simpa [Token.isEnd] using ends
    have failed : noExpression last [] = .failed [.grammar last (.expected .expression)] [] := by
      unfold noExpression
      simp [bind, andThen, peek, kind, fail, Parsed.reportedAfter]
    rw [failed]
    exact pending_failed ends _ []

theorem viable_increment (sign : Token) : Viable (increment sign) :=
  .bindExpect fun _ => (viable_pure _).cuttable

end Parts

section Expressions

structure ExpressionsViable (steps : Nat) : Prop where
  expression : Viable (expression steps)
  ternary : Viable (ternary steps)
  binary : ∀ levels, Viable (binary levels steps)
  operands : ∀ level tighter left, Viable (operands level tighter left steps)
  unary : Viable (unary steps)
  calls : ∀ callee, Viable (calls callee steps)
  argumentList : Viable (argumentList steps)
  furtherArguments : ∀ count, Viable (furtherArguments count steps)
  primary : Viable (primary steps)

/-- Whether the left side can be assigned to was settled before the cut. -/
private theorem assignment_cuttable {steps : Nat} (value : Viable (expression steps)) (left : Expr) (sign : Token) :
    Cuttable (do
      let found ← expression steps
      match left with
      | .name target => return .assign target (assignedValue target sign found)
      | _ => do
        report sign .invalidTarget
        return left : Parser Expr) := by
  cases left with
  | name target => exact value.cuttable.bind fun _ => viable_pure _
  | _ =>
    apply cuttable_of_not_reads
    intro last tokens found rest read
    obtain ⟨_, _, _, reported⟩ := reads_bind.mp read
    obtain ⟨_, _, reported, _⟩ := reads_bind.mp reported
    exact reads_report reported

theorem expressionsViable_succ {steps : Nat} (ih : ExpressionsViable steps) : ExpressionsViable (steps + 1) where
  expression := by
    rw [Parser.expression]
    refine ih.ternary.bind fun left => .bindAccept (viable_pure left) fun sign _ => ?_
    exact assignment_cuttable ih.expression left sign
  ternary := by
    rw [Parser.ternary]
    refine (ih.binary levels).bind fun condition => .bindAccept (viable_pure condition) fun _ _ => ?_
    refine ih.ternary.cuttable.bind fun first => .bindExpect fun _ => ?_
    exact ih.ternary.cuttable.bind fun second => viable_pure _
  binary := by
    intro levels
    cases levels with
    | nil =>
      rw [Parser.binary]
      exact ih.unary
    | cons level tighter =>
      rw [Parser.binary]
      exact (ih.binary tighter).bind fun left => ih.operands level tighter left
  operands := by
    intro level tighter left
    rw [Parser.operands]
    refine .bindAccept (viable_pure left) fun operator _ => ?_
    exact (ih.binary tighter).cuttable.bind fun right => ih.operands level tighter _
  unary := by
    rw [Parser.unary]
    refine .bindAccept (ih.primary.bind ih.calls) fun sign _ => ?_
    dsimp only
    split
    · exact (viable_increment sign).cuttable
    · exact ih.unary.cuttable.bind fun operand => viable_pure _
  calls := by
    intro callee
    rw [Parser.calls]
    refine .bindAccept (viable_pure callee) fun _ _ => ?_
    exact ih.argumentList.cuttable.bind fun found => .bindExpect fun paren => (ih.calls _).cuttable
  argumentList := by
    rw [Parser.argumentList]
    exact .bindNextIs (viable_pure []).cuttable (ih.furtherArguments 0)
  furtherArguments := by
    intro count
    rw [Parser.furtherArguments]
    refine (viable_checkCount count _).bind fun _ => ih.expression.bind fun argument => ?_
    refine .bindAccept (viable_pure [argument]) fun _ _ => ?_
    exact (ih.furtherArguments (count + 1)).cuttable.bind fun rest => viable_pure _
  primary := by
    rw [Parser.primary]
    refine .bindAccept viable_noExpression fun token _ => ?_
    dsimp only
    split
    · exact (viable_pure _).cuttable
    · exact ih.expression.cuttable.bind fun inner => .bindExpect fun _ => (viable_pure _).cuttable

theorem expressionsViable (steps : Nat) : ExpressionsViable steps := by
  induction steps with
  | zero =>
    constructor
    case binary =>
      intro levels
      cases levels <;> exact viable_outOfSteps
    all_goals
      intros
      exact viable_outOfSteps
  | succ steps ih => exact expressionsViable_succ ih

end Expressions

section Statements

variable {value : Parser Expr} {body : Parser Stmt} {declared : Parser (List Stmt)}

theorem viable_initializer (values : Viable value) : Viable (initializer value) := by
  refine .bindAccept (viable_pure none) fun _ _ => ?_
  exact values.cuttable.bind fun initial => viable_pure _

theorem viable_variableDeclaration (values : Viable value) : Viable (variableDeclaration value) := by
  refine .bindExpect fun name => (viable_initializer values).cuttable.bind fun initial => ?_
  exact .bindExpect fun _ => (viable_pure _).cuttable

theorem viable_expressionStatement (values : Viable value) : Viable (expressionStatement value) :=
  values.bind fun _ => .bindExpect fun _ => (viable_pure _).cuttable

theorem viable_optionalBefore (closer : TokenKind) (values : Viable value) : Viable (optionalBefore closer value) :=
  .bindNextIs (viable_pure none).cuttable (values.bind fun _ => viable_pure _)

theorem viable_returnStatement (word : Token) (values : Viable value) : Viable (returnStatement word value) :=
  (viable_optionalBefore _ values).bind fun _ => .bindExpect fun _ => (viable_pure _).cuttable

theorem viable_ifStatement (word : Token) (values : Viable value) (bodies : Viable body) :
    Viable (ifStatement word value body) := by
  refine .bindExpect fun _ => values.cuttable.bind fun condition => .bindExpect fun _ => ?_
  refine bodies.cuttable.bind fun consequence => .bindAccept (viable_pure _) fun _ _ => ?_
  exact bodies.cuttable.bind fun alternative => viable_pure _

theorem viable_whileStatement (word : Token) (values : Viable value) (bodies : Viable body) :
    Viable (whileStatement word value body) := by
  refine .bindExpect fun _ => values.cuttable.bind fun condition => .bindExpect fun _ => ?_
  exact bodies.cuttable.bind fun repeated => viable_pure _

theorem viable_forInitializer (values : Viable value) : Viable (forInitializer value) := by
  refine .bindAccept ((viable_expressionStatement values).bind fun _ => viable_pure _) fun token _ => ?_
  dsimp only
  split
  · exact (viable_variableDeclaration values).cuttable.bind fun _ => viable_pure _
  · exact (viable_pure none).cuttable

theorem viable_forStatement (word : Token) (values : Viable value) (bodies : Viable body) :
    Viable (forStatement word value body) := by
  refine .bindExpect fun _ => (viable_forInitializer values).cuttable.bind fun initial => ?_
  refine (viable_optionalBefore _ values).bind fun condition => .bindExpect fun _ => ?_
  refine (viable_optionalBefore _ values).cuttable.bind fun increment => .bindExpect fun _ => ?_
  exact bodies.cuttable.bind fun repeated => viable_pure _

theorem viable_furtherParameters (count steps : Nat) : Viable (furtherParameters count steps) := by
  induction steps generalizing count with
  | zero => exact viable_outOfSteps
  | succ steps ih =>
    rw [furtherParameters]
    refine (viable_checkCount count _).bind fun _ => .bindExpect fun parameter => ?_
    refine Viable.cuttable (.bindAccept (viable_pure [parameter]) fun _ _ => ?_)
    exact (ih (count + 1)).cuttable.bind fun rest => viable_pure _

theorem viable_closedBlock (declarations : Viable declared) : Viable (closedBlock declared) :=
  declarations.bind fun _ => .bindExpect fun _ => (viable_pure _).cuttable

theorem viable_functionDeclaration (steps : Nat) (declarations : Viable declared) :
    Viable (functionDeclaration steps declared) := by
  have parameters : Viable (parameterList steps) :=
    .bindNextIs (viable_pure []).cuttable (viable_furtherParameters 0 steps)
  refine .bindExpect fun name => Viable.cuttable (.bindExpect fun _ => ?_)
  refine parameters.cuttable.bind fun names => .bindExpect fun _ => Viable.cuttable (.bindExpect fun _ => ?_)
  exact (viable_closedBlock declarations).cuttable.bind fun body => viable_pure _

theorem viable_plainDeclaration (steps : Nat) (values : Viable value) (bodies : Viable body) (declarations : Viable declared) :
    Viable (plainDeclaration steps value body declared) := by
  refine .bindAccept (bodies.bind fun _ => viable_pure _) fun word _ => ?_
  dsimp only
  split
  · exact (viable_variableDeclaration values).cuttable.bind fun _ => viable_pure _
  · exact (viable_functionDeclaration steps declarations).cuttable.bind fun _ => viable_pure _
  · apply cuttable_of_not_reads
    intro last tokens found rest read
    obtain ⟨_, _, skipped, _⟩ := reads_bind.mp read
    obtain ⟨_, _, reported, _⟩ := reads_bind.mp skipped
    exact reads_report reported

structure StatementsViable (steps : Nat) : Prop where
  statement : Viable (statement steps)
  declaration : ∀ nested, Viable (declaration nested steps)
  declarations : ∀ nested, Viable (declarations nested steps)

section

variable {steps : Nat} (ih : StatementsViable steps)
include ih

private theorem statement_viable : Viable (statement (steps + 1)) := by
  have values := (expressionsViable steps).expression
  rw [statement]
  refine .bindAccept (viable_expressionStatement values) fun word _ => ?_
  dsimp only
  split
  · exact (viable_forStatement word values ih.statement).cuttable
  · exact (viable_ifStatement word values ih.statement).cuttable
  · exact (viable_whileStatement word values ih.statement).cuttable
  · exact Viable.cuttable (.bindExpect fun _ => (viable_pure _).cuttable)
  · exact Viable.cuttable (.bindExpect fun _ => (viable_pure _).cuttable)
  · exact (viable_returnStatement word values).cuttable
  · exact (viable_closedBlock (ih.declarations true)).cuttable.bind fun _ => viable_pure _

/-- A declaration that fails at the end is dropped, but its error is not. -/
private theorem declaration_viable (nested : Bool) : Viable (declaration nested (steps + 1)) := by
  have plain := viable_plainDeclaration steps (expressionsViable steps).expression ih.statement (ih.declarations true)
  have recovers : ∀ mark tokens,
      Pending (plainDeclaration steps (expression steps) (statement steps) (declarations true steps) mark tokens) →
      Pending (declaration nested (steps + 1) mark tokens) := by
    intro mark tokens pending
    rw [declaration]
    unfold recover
    split
    next failed =>
      rw [failed] at pending
      exact .inr pending
    next => exact pending
  constructor
  · intro last tokens behind found rest mark read ends
    rcases plain.cuttable _ _ _ _ _ mark (reads_declaration.mp read) ends with ⟨left, same, early⟩ | pending
    · exact .inl ⟨left, same, reads_declaration.mpr early⟩
    · exact .inr (recovers mark tokens pending)
  · intro last ends
    exact recovers last [] (plain.pends last ends)

private theorem declarations_viable (nested : Bool) : Viable (declarations nested (steps + 1)) := by
  have ended : PendsAtEnd (declarations nested (steps + 1)) := by
    intro last _
    rw [declarations_nil]
    exact .inl ⟨rfl, rfl⟩
  refine ⟨?_, ended⟩
  intro last tokens behind stmts rest mark read ends
  cases tokens with
  | nil => exact .inr (ended mark ends)
  | cons token tokens =>
    unfold Reads at read ⊢
    rw [List.cons_append, declarations_cons] at read
    rw [declarations_cons]
    by_cases closes : closesBlock nested token = true
    · rw [if_pos closes] at read ⊢
      cases read
      exact .inl ⟨token :: tokens, rfl, rfl⟩
    · rw [if_neg closes] at read ⊢
      have goesOn := (ih.declaration nested).cuttable.bind fun first =>
        (ih.declarations nested).bind fun others => viable_pure (first.toList ++ others)
      exact goesOn last (token :: tokens) behind stmts rest mark read ends

end

theorem statementsViable (steps : Nat) : StatementsViable steps := by
  induction steps with
  | zero => exact ⟨viable_outOfSteps, fun _ => viable_outOfSteps, fun _ => viable_outOfSteps⟩
  | succ steps ih => exact ⟨statement_viable ih, declaration_viable ih, declarations_viable ih⟩

end Statements

end Treewalk.Parser
