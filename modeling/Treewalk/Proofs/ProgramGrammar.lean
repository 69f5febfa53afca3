import Treewalk.Proofs.GrammarCompleteness
import Treewalk.Program

/-! Programs are read exactly as the grammar says. Statements and declarations are read whole, as
expressions are; where the grammar leaves open to which `if` an `else` belongs, some derivation gives
it to the nearest one, and that derivation is the one that the parser finds. -/

namespace Treewalk.Parser
open Grammar

def formStarts : Form → List TokenKind
  | .statement _ => statementWords ++ phraseStarts .expression
  | .declaration => .varWord :: .fnWord :: (statementWords ++ phraseStarts .expression)

theorem statement_starts {nearest : Prop} {form : Form} {tokens : List Token} {stmt : Stmt}
    (derived : Statement nearest form tokens stmt) : StartsWith (formStarts form) tokens := by
  induction derived with
  | declare declared =>
    cases declared with
    | bare kind _ _ | initialized kind _ _ _ _ => exact ⟨_, _, rfl, by simp [kind, formStarts]⟩
  | function kind => exact ⟨_, _, rfl, by simp [kind, formStarts]⟩
  | statement _ ih => exact ih.weaken fun kind member => List.mem_cons_of_mem _ (List.mem_cons_of_mem _ member)
  | block kind | branch kind | branchElse kind | whileLoop kind | forLoopFrom kind | forLoop kind | breakLoop kind
  | continueLoop kind | returnValue kind => exact ⟨_, _, rfl, by simp [kind, formStarts, statementWords]⟩
  | expression value =>
    exact ((expression_starts value).append _).weaken fun kind member => List.mem_append_right _ member

/-- The phrase is read whole, unless an `else` follows that could belong to it. -/
def StatementComplete : Form → List Token → Stmt → Prop
  | .statement dangles, tokens, stmt => ∀ last rest, (dangles = true → ¬ StartsWith [.elseWord] rest) →
      Settles statement last (tokens ++ rest) stmt rest
  | .declaration, tokens, stmt => ∀ nested last rest, ¬ StartsWith [.elseWord] rest →
      Settles (declaration nested) last (tokens ++ rest) (some stmt) rest

section Productions

variable {tokens : List Token}

/-- Declarations that are each read whole are read one after another, up to where declarations stop. -/
theorem settles_declarations {nested : Bool} {items : List (List Token × Stmt)}
    (starts : ∀ item ∈ items, StartsWith (formStarts .declaration) item.1)
    (each : ∀ item ∈ items, StatementComplete .declaration item.1 item.2) (last : Token) {rest : List Token}
    (stops : StopsDeclarations nested rest) :
    Settles (declarations nested) last ((items.map Prod.fst).flatten ++ rest) (items.map Prod.snd) rest := by
  induction items with
  | nil => exact settles_of_succ 0 fun _ _ => reads_declarations.mpr (.inl ⟨stops, rfl, rfl⟩)
  | cons item items ih =>
    obtain ⟨two, readsTwo⟩ := ih (fun item member => starts item (List.mem_cons_of_mem _ member))
      (fun item member => each item (List.mem_cons_of_mem _ member))
    have settled : ¬ StartsWith [.elseWord] ((items.map Prod.fst).flatten ++ rest) := by
      cases items with
      | nil =>
        rcases stops with rfl | ⟨_, closes⟩
        · exact not_startsWith_nil
        · exact closes.excludes (by decide)
      | cons next items =>
        have begins := starts next (by simp)
        simp only [List.map_cons, List.flatten_cons, List.append_assoc]
        exact (begins.append _).excludes (by decide)
    obtain ⟨one, readsOne⟩ := each item (by simp) nested last _ settled
    have begins := (starts item (by simp)).append ((items.map Prod.fst).flatten ++ rest)
    have goesOn : ¬ StopsDeclarations nested (item.1 ++ ((items.map Prod.fst).flatten ++ rest)) := by
      intro found
      rcases found with empty | ⟨_, closes⟩
      · rw [empty] at begins
        exact not_startsWith_nil begins
      · exact begins.excludes (by decide) closes
    refine settles_of_succ (one + two) fun steps enough => ?_
    simp only [List.map_cons, List.flatten_cons, List.append_assoc]
    exact reads_declarations.mpr (.inr ⟨goesOn, some item.2, _, items.map Prod.snd, readsOne steps (by omega),
      readsTwo steps (by omega), rfl⟩)

theorem settles_block {items : List (List Token × Stmt)}
    (starts : ∀ item ∈ items, StartsWith (formStarts .declaration) item.1)
    (each : ∀ item ∈ items, StatementComplete .declaration item.1 item.2) (last : Token) {ending : Token}
    (ends : ending.kind = .rightBrace) (rest : List Token) :
    Settles (fun steps => closedBlock (declarations true steps)) last
      ((items.map Prod.fst).flatten ++ ending :: rest) (items.map Prod.snd) rest := by
  have stops : StopsDeclarations true (ending :: rest) := .inr ⟨rfl, ending, rest, rfl, by simp [ends]⟩
  obtain ⟨least, reads⟩ := settles_declarations starts each last stops
  exact ⟨least, fun steps enough => reads_closedBlock.mpr ⟨ending, reads steps enough, ends⟩⟩

private theorem starts_varWord {stmt : Stmt} (declared : VariableDeclaration tokens stmt) :
    ∃ word others, tokens = word :: others ∧ word.kind = .varWord := by
  cases declared with
  | bare kind _ _ | initialized kind _ _ _ _ => exact ⟨_, _, rfl, kind⟩

private theorem declare_complete {stmt : Stmt} (declared : VariableDeclaration tokens stmt) :
    StatementComplete .declaration tokens stmt := by
  intro nested last rest _
  obtain ⟨word, others, rfl, declares⟩ := starts_varWord declared
  obtain ⟨least, reads⟩ := settles_variableDeclaration declared last rest
  refine settles_of_succ least fun steps enough => reads_declaration.mpr (reads_plainDeclaration.mpr ⟨stmt, rfl, ?_⟩)
  exact .inr ⟨word, others ++ rest, rfl, .inl ⟨declares, reads steps enough⟩⟩

private theorem function_complete {word name opening closing brace ending : Token} {parameters listed : List Token}
    {body : List (List Token × Stmt)} (declares : word.kind = .fnWord) (names : name.kind = .identifier)
    (opens : opening.kind = .leftParen) (each : ∀ parameter ∈ parameters, parameter.kind = .identifier)
    (few : parameters.length ≤ listLimit) (list : Separated (parameters.map fun parameter => [parameter]) listed)
    (closes : closing.kind = .rightParen) (begins : brace.kind = .leftBrace)
    (starts : ∀ item ∈ body, StartsWith (formStarts .declaration) item.1)
    (inner : ∀ item ∈ body, StatementComplete .declaration item.1 item.2) (ends : ending.kind = .rightBrace) :
    StatementComplete .declaration
      (word :: name :: opening :: (listed ++ closing :: brace :: ((body.map Prod.fst).flatten ++ [ending])))
      (.function name parameters (body.map Prod.snd)) := by
  intro nested last rest _
  obtain ⟨two, readsTwo⟩ := settles_block starts inner last ends rest
  obtain ⟨one, readsOne⟩ := settles_parameterList list each few last closes
    (brace :: ((body.map Prod.fst).flatten ++ ending :: rest))
  refine settles_of_succ (one + two) fun steps enough => reads_declaration.mpr (reads_plainDeclaration.mpr ⟨_, rfl, ?_⟩)
  simp only [List.append_assoc, List.cons_append, List.nil_append]
  exact .inr ⟨word, _, rfl, .inr ⟨declares, reads_functionDeclaration.mpr ⟨name, opening, _, parameters, closing, brace, _, _,
    rfl, names, opens, readsOne steps (by omega), closes, begins, readsTwo steps (by omega), rfl⟩⟩⟩

private theorem statement_declared {dangles : Bool} {stmt : Stmt} (starts : StartsWith (formStarts (.statement dangles)) tokens)
    (inner : StatementComplete (.statement dangles) tokens stmt) : StatementComplete .declaration tokens stmt := by
  intro nested last rest settled
  obtain ⟨least, reads⟩ := inner last rest fun _ => settled
  refine settles_of_succ least fun steps enough => reads_declaration.mpr (reads_plainDeclaration.mpr ⟨stmt, rfl, ?_⟩)
  exact .inl ⟨(starts.append rest).excludes (by cases dangles <;> decide), reads steps enough⟩

private theorem block_complete {brace ending : Token} {body : List (List Token × Stmt)} (begins : brace.kind = .leftBrace)
    (starts : ∀ item ∈ body, StartsWith (formStarts .declaration) item.1)
    (inner : ∀ item ∈ body, StatementComplete .declaration item.1 item.2) (ends : ending.kind = .rightBrace) :
    StatementComplete (.statement false) (brace :: ((body.map Prod.fst).flatten ++ [ending]))
      (.block (body.map Prod.snd) brace.pos) := by
  intro last rest _
  obtain ⟨least, reads⟩ := settles_block starts inner last ends rest
  refine settles_of_succ least fun steps enough => ?_
  simp only [List.append_assoc, List.cons_append, List.nil_append]
  exact reads_statement.mpr (.inr ⟨brace, _, rfl, .inr (.inr (.inr (.inl ⟨begins, _, reads steps enough, rfl⟩)))⟩)

private theorem branch_complete {word opening closing : Token} {thens : List Token} {condition : Expr} {consequence : Stmt}
    {dangles : Bool} (asks : word.kind = .ifWord) (opens : opening.kind = .leftParen)
    (decision : Expression .expression tokens condition) (closes : closing.kind = .rightParen)
    (yes : StatementComplete (.statement dangles) thens consequence) :
    StatementComplete (.statement true) (word :: opening :: (tokens ++ closing :: thens))
      (.branch condition consequence none word.pos) := by
  intro last rest settled
  obtain ⟨one, readsOne⟩ := settles_expression decision last (.inr closes) (thens ++ rest)
  obtain ⟨two, readsTwo⟩ := yes last rest fun _ => settled rfl
  refine settles_of_succ (one + two) fun steps enough => ?_
  simp only [List.append_assoc, List.cons_append]
  refine reads_statement.mpr (.inr ⟨word, _, rfl, .inr (.inl ⟨asks, reads_ifStatement.mpr ?_⟩)⟩)
  exact ⟨opening, _, condition, closing, _, consequence, rest, rfl, opens, readsOne steps (by omega), closes,
    readsTwo steps (by omega), .inl ⟨settled rfl, rfl, rfl⟩⟩

private theorem branchElse_complete {word opening closing other : Token} {thens elses : List Token} {condition : Expr}
    {consequence alternative : Stmt} {dangles : Bool} (asks : word.kind = .ifWord) (opens : opening.kind = .leftParen)
    (decision : Expression .expression tokens condition) (closes : closing.kind = .rightParen)
    (yes : StatementComplete (.statement false) thens consequence) (divides : other.kind = .elseWord)
    (no : StatementComplete (.statement dangles) elses alternative) :
    StatementComplete (.statement dangles) (word :: opening :: (tokens ++ closing :: (thens ++ other :: elses)))
      (.branch condition consequence (some alternative) word.pos) := by
  intro last rest settled
  obtain ⟨one, readsOne⟩ := settles_expression decision last (.inr closes) (thens ++ other :: (elses ++ rest))
  obtain ⟨two, readsTwo⟩ := yes last (other :: (elses ++ rest)) fun impossible => Bool.noConfusion impossible
  obtain ⟨three, readsThree⟩ := no last rest settled
  refine settles_of_succ (one + two + three) fun steps enough => ?_
  simp only [List.append_assoc, List.cons_append]
  refine reads_statement.mpr (.inr ⟨word, _, rfl, .inr (.inl ⟨asks, reads_ifStatement.mpr ?_⟩)⟩)
  exact ⟨opening, _, condition, closing, _, consequence, _, rfl, opens, readsOne steps (by omega), closes,
    readsTwo steps (by omega), .inr ⟨other, _, alternative, rfl, divides, readsThree steps (by omega), rfl⟩⟩

private theorem whileLoop_complete {word opening closing : Token} {bodies : List Token} {condition : Expr} {body : Stmt}
    {dangles : Bool} (loops : word.kind = .whileWord) (opens : opening.kind = .leftParen)
    (decision : Expression .expression tokens condition) (closes : closing.kind = .rightParen)
    (repeated : StatementComplete (.statement dangles) bodies body) :
    StatementComplete (.statement dangles) (word :: opening :: (tokens ++ closing :: bodies))
      (.loop condition body none word.pos) := by
  intro last rest settled
  obtain ⟨one, readsOne⟩ := settles_expression decision last (.inr closes) (bodies ++ rest)
  obtain ⟨two, readsTwo⟩ := repeated last rest settled
  refine settles_of_succ (one + two) fun steps enough => ?_
  simp only [List.append_assoc, List.cons_append]
  refine reads_statement.mpr (.inr ⟨word, _, rfl, .inr (.inr (.inl ⟨loops, reads_whileStatement.mpr ?_⟩))⟩)
  exact ⟨opening, _, condition, closing, _, body, rfl, opens, readsOne steps (by omega), closes, readsTwo steps (by omega), rfl⟩

private theorem settles_beginning {initial : Stmt} (beginning : Beginning tokens initial) (last : Token) (rest : List Token) :
    Settles (fun steps => forInitializer (expression steps)) last (tokens ++ rest) (some initial) rest := by
  cases beginning with
  | declare declared =>
    obtain ⟨word, others, rfl, declares⟩ := starts_varWord declared
    obtain ⟨least, reads⟩ := settles_variableDeclaration declared last rest
    exact ⟨least, fun steps enough => reads_forInitializer.mpr
      (.inr ⟨word, others ++ rest, rfl, .inr ⟨declares, initial, reads steps enough, rfl⟩⟩)⟩
  | expression value ends =>
    obtain ⟨least, reads⟩ := settles_expressionStatement value last ends rest
    refine ⟨least, fun steps enough => reads_forInitializer.mpr (.inl ⟨?_, _, reads steps enough, rfl⟩)⟩
    exact (((expression_starts value).append _).append _).excludes (by decide)

/-- The clauses of a loop behind what runs before it. -/
private theorem forLoop_complete {word opening divider closing : Token} {starts conditions increments bodies : List Token}
    {initial : Option Stmt} {body : Stmt} {condition increment : Option Expr} {dangles : Bool} (loops : word.kind = .forWord)
    (opens : opening.kind = .leftParen)
    (beginning : ∀ last rest, Settles (fun steps => forInitializer (expression steps)) last (starts ++ rest) initial rest)
    (decision : Optional conditions condition) (divides : divider.kind = .semicolon)
    (step : Optional increments increment) (closes : closing.kind = .rightParen)
    (repeated : StatementComplete (.statement dangles) bodies body) :
    StatementComplete (.statement dangles)
      (word :: opening :: (starts ++ (conditions ++ divider :: (increments ++ closing :: bodies))))
      (forLoop word initial condition increment body) := by
  intro last rest settled
  obtain ⟨four, readsFour⟩ := repeated last rest settled
  obtain ⟨three, readsThree⟩ := settles_optional step last (.inr closes) (bodies ++ rest)
  obtain ⟨two, readsTwo⟩ := settles_optional decision last (.inl divides) (increments ++ closing :: (bodies ++ rest))
  obtain ⟨one, readsOne⟩ := beginning last (conditions ++ divider :: (increments ++ closing :: (bodies ++ rest)))
  rw [divides] at readsTwo
  rw [closes] at readsThree
  refine settles_of_succ (one + two + three + four) fun steps enough => ?_
  simp only [List.append_assoc, List.cons_append]
  refine reads_statement.mpr (.inr ⟨word, _, rfl, .inl ⟨loops, reads_forStatement.mpr ?_⟩⟩)
  exact ⟨opening, _, initial, _, condition, divider, _, increment, closing, _, body, rfl, opens, readsOne steps (by omega),
    readsTwo steps (by omega), divides, readsThree steps (by omega), closes, readsFour steps (by omega), rfl⟩

private theorem returnValue_complete {word closing : Token} {result : Option Expr}
    (returns : word.kind = .returnWord) (value : Optional tokens result) (ends : closing.kind = .semicolon) :
    StatementComplete (.statement false) (word :: (tokens ++ [closing])) (.returnValue word result) := by
  intro last rest _
  obtain ⟨least, reads⟩ := settles_optional value last (.inl ends) rest
  rw [ends] at reads
  refine settles_of_succ least fun steps enough => ?_
  simp only [List.append_assoc, List.cons_append, List.nil_append]
  refine reads_statement.mpr (.inr ⟨word, _, rfl, .inr (.inr (.inr (.inr (.inr (.inr ⟨returns, ?_⟩)))))⟩)
  exact reads_returnStatement.mpr ⟨result, closing, reads steps enough, ends, rfl⟩

private theorem expressionStatement_complete {closing : Token} {expr : Expr} (value : Expression .expression tokens expr)
    (ends : closing.kind = .semicolon) : StatementComplete (.statement false) (tokens ++ [closing]) (.expression expr) := by
  intro last rest _
  obtain ⟨least, reads⟩ := settles_expressionStatement value last ends rest
  refine settles_of_succ least fun steps enough => reads_statement.mpr (.inl ⟨?_, reads steps enough⟩)
  exact (((expression_starts value).append _).append _).excludes (by decide)

end Productions

theorem statement_complete {form : Form} {tokens : List Token} {stmt : Stmt} (derived : Statement True form tokens stmt) :
    StatementComplete form tokens stmt := by
  induction derived with
  | declare declared => exact declare_complete declared
  | function declares names opens each few list closes begins inner ends ih =>
    exact function_complete declares names opens each few list closes begins
      (fun item member => statement_starts (inner item member)) ih ends
  | statement inner ih => exact statement_declared (statement_starts inner) ih
  | block begins inner ends ih =>
    exact block_complete begins (fun item member => statement_starts (inner item member)) ih ends
  | branch asks opens decision closes _ yes => exact branch_complete asks opens decision closes yes
  | branchElse asks opens decision closes _ owner divides _ yes no =>
    have nearest := owner trivial
    subst nearest
    exact branchElse_complete asks opens decision closes yes divides no
  | whileLoop loops opens decision closes _ ih => exact whileLoop_complete loops opens decision closes ih
  | forLoopFrom loops opens beginning decision divides step closes _ ih =>
    exact forLoop_complete loops opens (settles_beginning beginning) decision divides step closes ih
  | @forLoop word opening first _ _ _ _ _ _ _ _ _ loops opens begins decision divides step closes _ ih =>
    have beginning : ∀ last rest, Settles (fun steps => forInitializer (expression steps)) last ([first] ++ rest) none rest :=
      fun last rest => ⟨0, fun _ _ => reads_forInitializer.mpr (.inr ⟨first, rest, rfl, .inl ⟨begins, rfl, rfl⟩⟩)⟩
    exact forLoop_complete loops opens beginning decision divides step closes ih
  | breakLoop leaves ends =>
    intro last rest _
    exact settles_of_succ 0 fun _ _ => reads_statement.mpr
      (.inr ⟨_, _, rfl, .inr (.inr (.inr (.inr (.inl ⟨leaves, _, rfl, ends, rfl⟩))))⟩)
  | continueLoop skips ends =>
    intro last rest _
    exact settles_of_succ 0 fun _ _ => reads_statement.mpr
      (.inr ⟨_, _, rfl, .inr (.inr (.inr (.inr (.inr (.inl ⟨skips, _, rfl, ends, rfl⟩)))))⟩)
  | returnValue returns value ends => exact returnValue_complete returns value ends
  | expression value ends => exact expressionStatement_complete value ends

end Treewalk.Parser

namespace Treewalk.Grammar

/-- An `else` behind a statement that dangles finds an `if` inside it. -/
theorem else_attaches {form : Form} {tokens elses : List Token} {stmt alternative : Stmt} {other : Token} {dangles : Bool}
    (derived : Statement True form tokens stmt) (open_ : form = .statement true) (divides : other.kind = .elseWord)
    (no : Statement True (.statement dangles) elses alternative) :
    ∃ inner found, Statement True (.statement inner) (tokens ++ other :: elses) found := by
  induction derived with
  | declare | function | statement => cases open_
  | block | breakLoop | continueLoop | returnValue | expression => cases open_
  | @branch word opening closing tokens thens condition consequence inside asks opens decision closes yes ih =>
    cases inside with
    | false =>
      exact ⟨dangles, _, by simpa using Statement.branchElse asks opens decision closes yes (fun _ => rfl) divides no⟩
    | true =>
      obtain ⟨inner, found, attached⟩ := ih rfl
      exact ⟨true, _, by simpa using Statement.branch asks opens decision closes attached⟩
  | branchElse asks opens decision closes yes owner between _ _ ih =>
    cases open_
    obtain ⟨inner, found, attached⟩ := ih rfl
    exact ⟨inner, _, by simpa using Statement.branchElse asks opens decision closes yes owner between attached⟩
  | whileLoop loops opens decision closes _ ih =>
    cases open_
    obtain ⟨inner, found, attached⟩ := ih rfl
    exact ⟨inner, _, by simpa using Statement.whileLoop loops opens decision closes attached⟩
  | forLoopFrom loops opens beginning decision between step closes _ ih =>
    cases open_
    obtain ⟨inner, found, attached⟩ := ih rfl
    exact ⟨inner, _, by simpa using Statement.forLoopFrom loops opens beginning decision between step closes attached⟩
  | forLoop loops opens begins decision between step closes _ ih =>
    cases open_
    obtain ⟨inner, found, attached⟩ := ih rfl
    exact ⟨inner, _, by simpa using Statement.forLoop loops opens begins decision between step closes attached⟩

/-- Some tree is given to the phrase when each `else` belongs to the nearest `if`. -/
def HasNearest : Form → List Token → Prop
  | .statement _, tokens => ∃ dangles stmt, Statement True (.statement dangles) tokens stmt
  | .declaration, tokens => ∃ stmt, Statement True .declaration tokens stmt

theorem items_nearest {items : List (List Token × Stmt)} (each : ∀ item ∈ items, HasNearest .declaration item.1) :
    ∃ others : List (List Token × Stmt), others.map Prod.fst = items.map Prod.fst ∧
      ∀ item ∈ others, Statement True .declaration item.1 item.2 := by
  induction items with
  | nil => exact ⟨[], rfl, by simp⟩
  | cons item items ih =>
    obtain ⟨stmt, derived⟩ := each item (by simp)
    obtain ⟨others, same, derivedOthers⟩ := ih fun item member => each item (List.mem_cons_of_mem _ member)
    refine ⟨(item.1, stmt) :: others, by simp [same], ?_⟩
    exact List.forall_mem_cons.mpr ⟨derived, derivedOthers⟩

/-- Whatever the grammar derives, it also derives with each `else` at the nearest `if`. -/
theorem statement_nearest {nearest : Prop} {form : Form} {tokens : List Token} {stmt : Stmt}
    (derived : Statement nearest form tokens stmt) : HasNearest form tokens := by
  induction derived with
  | declare declared => exact ⟨_, .declare declared⟩
  | function declares names opens each few list closes begins _ ends ih =>
    obtain ⟨others, same, derived⟩ := items_nearest ih
    rw [← same]
    exact ⟨_, .function declares names opens each few list closes begins derived ends⟩
  | statement _ ih =>
    obtain ⟨dangles, found, derived⟩ := ih
    exact ⟨found, .statement derived⟩
  | block begins _ ends ih =>
    obtain ⟨others, same, derived⟩ := items_nearest ih
    rw [← same]
    exact ⟨false, _, .block begins derived ends⟩
  | branch asks opens decision closes _ ih =>
    obtain ⟨dangles, found, yes⟩ := ih
    exact ⟨true, _, .branch asks opens decision closes yes⟩
  | branchElse asks opens decision closes _ _ divides _ ihYes ihNo =>
    obtain ⟨inside, consequence, yes⟩ := ihYes
    obtain ⟨dangles, alternative, no⟩ := ihNo
    have attached := else_attaches (.branch asks opens decision closes yes) rfl divides no
    simpa [HasNearest] using attached
  | whileLoop loops opens decision closes _ ih =>
    obtain ⟨dangles, found, derived⟩ := ih
    exact ⟨dangles, _, .whileLoop loops opens decision closes derived⟩
  | forLoopFrom loops opens beginning decision divides step closes _ ih =>
    obtain ⟨dangles, found, derived⟩ := ih
    exact ⟨dangles, _, .forLoopFrom loops opens beginning decision divides step closes derived⟩
  | forLoop loops opens begins decision divides step closes _ ih =>
    obtain ⟨dangles, found, derived⟩ := ih
    exact ⟨dangles, _, .forLoop loops opens begins decision divides step closes derived⟩
  | breakLoop leaves ends => exact ⟨false, _, .breakLoop leaves ends⟩
  | continueLoop skips ends => exact ⟨false, _, .continueLoop skips ends⟩
  | returnValue returns value ends => exact ⟨false, _, .returnValue returns value ends⟩
  | expression value ends => exact ⟨false, _, .expression value ends⟩

theorem declarations_nearest {nearest : Prop} {tokens : List Token} {stmts : List Stmt}
    (derived : Declarations nearest tokens stmts) : ∃ others, Declarations True tokens others := by
  obtain ⟨items, each, rfl, rfl⟩ := derived
  obtain ⟨others, same, derived⟩ := items_nearest fun item member => statement_nearest (each item member)
  exact ⟨others.map Prod.snd, others, derived, by rw [same], rfl⟩

/-- The grammar that gives each `else` to the nearest `if` is part of the grammar. -/
theorem statement_weaken {form : Form} {tokens : List Token} {stmt : Stmt} (derived : Statement True form tokens stmt) :
    Statement False form tokens stmt := by
  induction derived with
  | declare declared => exact .declare declared
  | function declares names opens each few list closes begins _ ends ih =>
    exact .function declares names opens each few list closes begins ih ends
  | statement _ ih => exact .statement ih
  | block begins _ ends ih => exact .block begins ih ends
  | branch asks opens decision closes _ ih => exact .branch asks opens decision closes ih
  | branchElse asks opens decision closes _ _ divides _ yes no =>
    exact .branchElse asks opens decision closes yes (fun impossible => impossible.elim) divides no
  | whileLoop loops opens decision closes _ ih => exact .whileLoop loops opens decision closes ih
  | forLoopFrom loops opens beginning decision divides step closes _ ih =>
    exact .forLoopFrom loops opens beginning decision divides step closes ih
  | forLoop loops opens begins decision divides step closes _ ih =>
    exact .forLoop loops opens begins decision divides step closes ih
  | breakLoop leaves ends => exact .breakLoop leaves ends
  | continueLoop skips ends => exact .continueLoop skips ends
  | returnValue returns value ends => exact .returnValue returns value ends
  | expression value ends => exact .expression value ends

theorem declarations_weaken {tokens : List Token} {stmts : List Stmt} (derived : Declarations True tokens stmts) :
    Declarations False tokens stmts := by
  obtain ⟨items, each, rfl, rfl⟩ := derived
  exact ⟨items, fun item member => statement_weaken (each item member), rfl, rfl⟩

end Treewalk.Grammar

namespace Treewalk.Program
open Treewalk.Grammar Treewalk.Parser

variable {tokens : List Token} {last : Token}

theorem lastToken_append (ends : last.isEnd = true) (inner : ∀ token ∈ tokens, token.isEnd = false) :
    lastToken (tokens ++ [last]) = last := by
  unfold lastToken
  rw [List.find?_append, List.find?_eq_none.mpr fun token member => by simp [inner token member]]
  simp [ends]

theorem takeWhile_append_end (ends : last.isEnd = true) (inner : ∀ token ∈ tokens, token.isEnd = false) :
    (tokens ++ [last]).takeWhile (fun token => !token.isEnd) = tokens := by
  rw [List.takeWhile_append_of_pos fun token member => by simp [inner token member]]
  simp [ends]

/-- A program is what is read with any number of steps that suffices, up to the first token that marks an end. -/
theorem declarations_ofTokens (tokens : List Token) {steps : Nat}
    (enough : stepsFor (tokens.takeWhile fun token => !token.isEnd) ≤ steps) :
    declarations false steps (lastToken tokens) (tokens.takeWhile fun token => !token.isEnd) =
      .done (ofTokens tokens).statements (ofTokens tokens).errors [] := by
  unfold ofTokens
  dsimp only
  generalize tokens.takeWhile _ = before at enough ⊢
  have least : 20 * before.length + 16 ≤ stepsFor before := by
    unfold stepsFor
    omega
  have ended := (statementsEnd (stepsFor before)).declarations false before.length least (lastToken tokens) before
    (Nat.le_refl _)
  rcases declarations_stop false (stepsFor before) (lastToken tokens) before with same | ⟨stmts, errors, rest, same, stops⟩
  · rw [same] at ended
    exact ended.elim
  · rcases stops with rfl | ⟨impossible, _⟩
    · rw [declarations_more false enough (by simp [same])]
      simp only [same]
    · cases impossible

theorem ofTokens_declarations (ends : last.isEnd = true) (inner : ∀ token ∈ tokens, token.isEnd = false) :
    ∃ least, ∀ steps, least ≤ steps → declarations false steps last tokens =
      .done (ofTokens (tokens ++ [last])).statements (ofTokens (tokens ++ [last])).errors [] := by
  refine ⟨stepsFor tokens, fun steps enough => ?_⟩
  have read := @declarations_ofTokens (tokens ++ [last]) steps
  rw [lastToken_append ends inner, takeWhile_append_end ends inner] at read
  exact read enough

/-- The trees that are read without an error are those of the grammar. -/
theorem ofTokens_derives (ends : last.isEnd = true) (inner : ∀ token ∈ tokens, token.isEnd = false) (stmts : List Stmt) :
    Declarations True tokens stmts ↔
      (ofTokens (tokens ++ [last])).errors = [] ∧ (ofTokens (tokens ++ [last])).statements = stmts := by
  obtain ⟨least, reads⟩ := ofTokens_declarations ends inner
  constructor
  · intro derived
    obtain ⟨items, each, rfl, rfl⟩ := derived
    obtain ⟨bound, settles⟩ := settles_declarations (fun item member => statement_starts (each item member))
      (fun item member => statement_complete (each item member)) last (.inl rfl : StopsDeclarations false [])
    have read := settles (least + bound) (by omega)
    rw [List.append_nil] at read
    have same := (reads (least + bound) (by omega)).symm.trans read
    simp only [Parsed.done.injEq, and_true] at same
    exact ⟨same.2, same.1⟩
  · intro found
    obtain ⟨clean, rfl⟩ := found
    have read := reads least (Nat.le_refl least)
    rw [clean] at read
    obtain ⟨taken, same, derived, stops⟩ := (statementsSound least).declarations read
    rw [List.append_nil] at same
    rw [← same] at derived
    exact derived

/-- The parser reports nothing exactly when the tokens are a program of the grammar, and then its
trees are the ones that the grammar gives to them, with each `else` at the nearest `if`. -/
theorem ofTokens_accepts_grammar (tokens : List Token) (last : Token) (ends : last.isEnd = true)
    (inner : ∀ token ∈ tokens, token.isEnd = false) :
    ((ofTokens (tokens ++ [last])).errors = [] ↔ ∃ stmts, Declarations False tokens stmts) ∧
      ∀ stmts, Declarations True tokens stmts ↔
        (ofTokens (tokens ++ [last])).errors = [] ∧ (ofTokens (tokens ++ [last])).statements = stmts := by
  refine ⟨?_, ofTokens_derives ends inner⟩
  constructor
  · intro clean
    exact ⟨_, declarations_weaken ((ofTokens_derives ends inner _).mpr ⟨clean, rfl⟩)⟩
  · intro derivable
    obtain ⟨stmts, derived⟩ := derivable
    obtain ⟨others, derived⟩ := declarations_nearest derived
    exact ((ofTokens_derives ends inner others).mp derived).1

/-- `if (a) if (b) c; else d;`, which the grammar derives in two ways. -/
def nestedElse : List Token :=
  [.ifWord, .leftParen, .identifier, .rightParen, .ifWord, .leftParen, .identifier, .rightParen,
   .identifier, .semicolon, .elseWord, .identifier, .semicolon].map fun kind => { kind, lexeme := kind.bytes }

theorem nestedElse_accepted : (Token.endAt {}).isEnd = true ∧ (∀ token ∈ nestedElse, token.isEnd = false) ∧
    (∃ stmts, Declarations False nestedElse stmts) ∧
    ∃ condition inner pos, Declarations True nestedElse [.branch condition inner none pos] := by
  have ends : (Token.endAt {}).isEnd = true := rfl
  have inner : ∀ token ∈ nestedElse, token.isEnd = false := by decide
  have accepts := ofTokens_accepts_grammar nestedElse (.endAt {}) ends inner
  exact ⟨ends, inner, accepts.1.mp rfl, _, _, _, (accepts.2 _).mpr ⟨rfl, rfl⟩⟩

end Treewalk.Program
