import Treewalk.Proofs.Grammar
import Treewalk.Proofs.ParserReading

/-! What the parser reads without an error is a phrase of the grammar, and the tree that it yields is
the one that the grammar gives to the phrase. An `else` goes to the nearest `if`, since a statement
that could still take one is never left in front of it. -/

namespace Treewalk.Parser
open Grammar

def tierLevel (tier : Tier) : Level := ⟨tier.operators, tier.node⟩

def tighterLevels : Tier → List Level
  | .disjunction => [.conjunction, .equality, .comparison, .term, .factor].map tierLevel
  | .conjunction => [.equality, .comparison, .term, .factor].map tierLevel
  | .equality => [.comparison, .term, .factor].map tierLevel
  | .comparison => [.term, .factor].map tierLevel
  | .term => [.factor].map tierLevel
  | .factor => []

def phraseLevels : Phrase → List Level
  | .chain tier => tierLevel tier :: tighterLevels tier
  | _ => []

theorem levels_eq_phraseLevels : levels = phraseLevels (.chain .disjunction) := rfl

theorem phraseLevels_operand (tier : Tier) : phraseLevels tier.operand = tighterLevels tier := by
  cases tier <;> rfl

inductive Layered : Phrase → Prop where
  | chain (tier : Tier) : Layered (.chain tier)
  | unary : Layered .unary

theorem layered_operand (tier : Tier) : Layered tier.operand := by
  cases tier <;> constructor

/-- The front of the tokens, up to the rest, is a phrase. -/
def Fronted (phrase : Phrase) (tokens : List Token) (expr : Expr) (rest : List Token) : Prop :=
  ∃ taken, tokens = taken ++ rest ∧ Expression phrase taken expr

/-- Only a name by itself stands for a name. -/
theorem tokens_of_name {phrase : Phrase} {tokens : List Token} {expr : Expr}
    (derived : Expression phrase tokens expr) {target : Token} (named : expr = .name target) :
    tokens = [target] ∧ target.kind = .identifier := by
  induction derived with
  | unassigned _ ih | unchosen _ ih | operand _ ih | unsigned _ ih | uncalled _ ih => exact ih named
  | name names =>
    cases named
    exact ⟨rfl, names⟩
  | @operator tier => cases tier <;> cases named
  | _ => cases named

theorem assignedValue_assign {target sign : Token} {value : Expr} (kind : sign.kind = .assign) :
    assignedValue target sign value = value := by
  simp [assignedValue, compoundOperator, kind]

theorem assignedValue_compound {target sign : Token} {value : Expr} {operator : TokenKind}
    (pair : (sign.kind, operator) ∈ compoundSigns) :
    assignedValue target sign value = .binary (.name target) (.operatorAt operator sign) value := by
  simp only [compoundSigns, List.mem_cons, Prod.mk.injEq, List.not_mem_nil, or_false] at pair
  rcases pair with ⟨kind, rfl⟩ | ⟨kind, rfl⟩ | ⟨kind, rfl⟩ | ⟨kind, rfl⟩ <;>
    simp [assignedValue, compoundOperator, kind]

theorem assignmentSign_cases {kind : TokenKind} (member : kind ∈ assignmentSigns) :
    kind = .assign ∨ ∃ operator, (kind, operator) ∈ compoundSigns := by
  simp only [assignmentSigns, List.mem_cons, List.not_mem_nil, or_false] at member
  rcases member with rfl | rfl | rfl | rfl | rfl
  · exact .inl rfl
  all_goals exact .inr (by simp [compoundSigns])

theorem atom_derives {token : Token} {expr : Expr} (kind : token.kind ∈ atomStarts)
    (found : atom? token = some expr) : Expression .primary [token] expr := by
  simp only [atomStarts, List.mem_cons, List.not_mem_nil, or_false] at kind
  rcases kind with kind | kind | kind | kind | kind | kind
  all_goals
    simp only [atom?, kind, Option.some.injEq] at found
    subst found
  · exact .falsity kind
  · exact .truth kind
  · exact .null kind
  · exact .constant (by simp [kind])
  · exact .constant (by simp [kind])
  · exact .name kind

theorem increment_derives {sign target : Token} (counts : sign.kind = .plusPlus ∨ sign.kind = .minusMinus)
    (name : target.kind = .identifier) : Expression .unary [sign, target]
      (.assign target (.binary (.name target) (.operatorAt (if sign.kind == .minusMinus then .minus else .plus) sign)
        (.literal (.number 1.0) sign.pos))) := by
  rcases counts with kind | kind
  · rw [kind]
    exact .increment kind name
  · rw [kind]
    exact .decrement kind name

structure ExpressionsSound (steps : Nat) : Prop where
  expression : ∀ {last tokens expr rest}, Reads (expression steps) last tokens expr rest →
    Fronted .expression tokens expr rest
  ternary : ∀ {last tokens expr rest}, Reads (ternary steps) last tokens expr rest →
    Fronted .ternary tokens expr rest
  binary : ∀ {phrase last tokens expr rest}, Layered phrase →
    Reads (binary (phraseLevels phrase) steps) last tokens expr rest → Fronted phrase tokens expr rest
  operands : ∀ {tier lefts left last tokens expr rest}, Expression (.chain tier) lefts left →
    Reads (operands (tierLevel tier) (tighterLevels tier) left steps) last tokens expr rest →
    ∃ taken, tokens = taken ++ rest ∧ Expression (.chain tier) (lefts ++ taken) expr
  unary : ∀ {last tokens expr rest}, Reads (unary steps) last tokens expr rest →
    Fronted .unary tokens expr rest
  calls : ∀ {called callee last tokens expr rest}, Expression .call called callee →
    Reads (calls callee steps) last tokens expr rest →
    ∃ taken, tokens = taken ++ rest ∧ Expression .call (called ++ taken) expr
  argumentList : ∀ {last tokens found rest}, Reads (argumentList steps) last tokens found rest →
    ∃ items : List (List Token × Expr), ∃ taken, tokens = taken ++ rest ∧ found = items.map Prod.snd ∧
      (∀ item ∈ items, Expression .expression item.1 item.2) ∧ items.length ≤ listLimit ∧
      Separated (items.map Prod.fst) taken
  furtherArguments : ∀ {count last tokens found rest}, Reads (furtherArguments count steps) last tokens found rest →
    ∃ items : List (List Token × Expr), ∃ taken, tokens = taken ++ rest ∧ found = items.map Prod.snd ∧
      (∀ item ∈ items, Expression .expression item.1 item.2) ∧ count + items.length ≤ listLimit ∧
      items ≠ [] ∧ Separated (items.map Prod.fst) taken
  primary : ∀ {last tokens expr rest}, Reads (primary steps) last tokens expr rest →
    Fronted .primary tokens expr rest

theorem expressionsSound_zero : ExpressionsSound 0 := by
  constructor
  case binary =>
    intro phrase _ _ _ _ _ read
    cases phrase <;> exact absurd read reads_outOfSteps
  all_goals
    intros
    exact absurd ‹_› reads_outOfSteps

theorem expressionsSound_succ {steps : Nat} (ih : ExpressionsSound steps) : ExpressionsSound (steps + 1) where
  expression := by
    intro last tokens expr rest read
    obtain ⟨left, behind, one, other⟩ := reads_expression.mp read
    obtain ⟨taken, rfl, derived⟩ := ih.ternary one
    rcases other with ⟨_, rfl, rfl⟩ | ⟨target, sign, after, value, rfl, rfl, member, two, rfl⟩
    · exact ⟨taken, rfl, .unassigned derived⟩
    · obtain ⟨rfl, name⟩ := tokens_of_name derived rfl
      obtain ⟨right, rfl, assigned⟩ := ih.expression two
      refine ⟨target :: sign :: right, rfl, ?_⟩
      rcases assignmentSign_cases member with kind | ⟨operator, pair⟩
      · rw [assignedValue_assign kind]
        exact .assign name kind assigned
      · rw [assignedValue_compound pair]
        exact .compound name pair assigned
  ternary := by
    intro last tokens expr rest read
    obtain ⟨condition, behind, one, other⟩ := reads_ternary.mp read
    rw [levels_eq_phraseLevels] at one
    obtain ⟨taken, rfl, decision⟩ := ih.binary (.chain _) one
    rcases other with ⟨_, rfl, rfl⟩ | ⟨mark, after, first, divider, later, second, rfl, asks, two, divides, three, rfl⟩
    · exact ⟨taken, rfl, .unchosen decision⟩
    · obtain ⟨firsts, rfl, yes⟩ := ih.ternary two
      obtain ⟨seconds, rfl, no⟩ := ih.ternary three
      exact ⟨taken ++ mark :: (firsts ++ divider :: seconds), by simp, .choice decision asks yes divides no⟩
  binary := by
    intro phrase last tokens expr rest layered read
    cases layered with
    | unary => exact ih.unary (reads_binary_nil.mp read)
    | chain tier =>
      obtain ⟨left, behind, one, more⟩ := reads_binary_cons.mp read
      rw [← phraseLevels_operand] at one
      obtain ⟨lefts, rfl, derived⟩ := ih.binary (layered_operand tier) one
      obtain ⟨taken, rfl, chain⟩ := ih.operands (.operand derived) more
      exact ⟨lefts ++ taken, by simp, chain⟩
  operands := by
    intro tier lefts left last tokens expr rest derived read
    rcases reads_operands.mp read with ⟨_, rfl, rfl⟩ | ⟨sign, after, right, behind, rfl, joins, one, more⟩
    · exact ⟨[], rfl, by simpa using derived⟩
    · rw [← phraseLevels_operand] at one
      obtain ⟨rights, rfl, operand⟩ := ih.binary (layered_operand tier) one
      obtain ⟨taken, rfl, chain⟩ := ih.operands (.operator derived joins operand) more
      exact ⟨sign :: (rights ++ taken), by simp, by simpa using chain⟩
  unary := by
    intro last tokens expr rest read
    rcases reads_unary.mp read with ⟨_, callee, behind, one, more⟩ | ⟨sign, after, rfl, other⟩
    · obtain ⟨called, rfl, derived⟩ := ih.primary one
      obtain ⟨taken, rfl, call⟩ := ih.calls (.uncalled derived) more
      exact ⟨called ++ taken, by simp, .unsigned call⟩
    · rcases other with ⟨counts, counted⟩ | ⟨negates, operand, one, rfl⟩
      · obtain ⟨target, rfl, name, rfl⟩ := reads_increment.mp counted
        exact ⟨[sign, target], rfl, increment_derives counts name⟩
      · obtain ⟨taken, rfl, derived⟩ := ih.unary one
        exact ⟨sign :: taken, rfl, .negation (by simpa using negates) derived⟩
  calls := by
    intro called callee last tokens expr rest derived read
    rcases reads_calls.mp read with ⟨_, rfl, rfl⟩ |
      ⟨opening, after, found, closing, behind, rfl, opens, listed, closes, more⟩
    · exact ⟨[], rfl, by simpa using derived⟩
    · obtain ⟨items, list, rfl, rfl, each, few, separated⟩ := ih.argumentList listed
      obtain ⟨taken, rfl, call⟩ := ih.calls (.call derived opens each few separated closes) more
      exact ⟨opening :: (list ++ closing :: taken), by simp, by simpa using call⟩
  argumentList := by
    intro last tokens found rest read
    rcases reads_argumentList.mp read with ⟨_, rfl, rfl⟩ | ⟨_, further⟩
    · exact ⟨[], [], rfl, rfl, by simp, Nat.zero_le _, .none⟩
    · obtain ⟨items, taken, rfl, rfl, each, few, _, separated⟩ := ih.furtherArguments further
      exact ⟨items, taken, rfl, rfl, each, by omega, separated⟩
  furtherArguments := by
    intro count last tokens found rest read
    obtain ⟨few, argument, behind, one, other⟩ := reads_furtherArguments.mp read
    obtain ⟨taken, rfl, derived⟩ := ih.expression one
    have limit : maxArguments = listLimit := rfl
    rcases other with ⟨_, rfl, rfl⟩ | ⟨mark, after, others, rfl, divides, more, rfl⟩
    · refine ⟨[(taken, argument)], taken, rfl, rfl, by simpa using derived, ?_, by simp, .last taken⟩
      simp only [List.length_singleton]
      omega
    · obtain ⟨items, list, rfl, rfl, each, enough, some, separated⟩ := ih.furtherArguments more
      obtain ⟨item, items, rfl⟩ := List.exists_cons_of_ne_nil some
      refine ⟨(taken, argument) :: item :: items, taken ++ mark :: list, by simp, rfl, ?_, ?_, by simp,
        .more divides separated⟩
      · exact List.forall_mem_cons.mpr ⟨derived, each⟩
      · simp only [List.length_cons] at enough ⊢
        omega
  primary := by
    intro last tokens expr rest read
    obtain ⟨token, after, rfl, ⟨kind, found, rfl⟩ | ⟨opens, inner, closing, one, closes, rfl⟩⟩ := reads_primary.mp read
    · exact ⟨[token], rfl, atom_derives kind found⟩
    · obtain ⟨taken, rfl, derived⟩ := ih.expression one
      exact ⟨token :: (taken ++ [closing]), by simp, .group opens derived closes⟩

theorem expressionsSound (steps : Nat) : ExpressionsSound steps := by
  induction steps with
  | zero => exact expressionsSound_zero
  | succ steps ih => exact expressionsSound_succ ih

theorem optional_derives {steps : Nat} {closer : TokenKind} {last : Token} {tokens rest : List Token} {found : Option Expr}
    (read : Reads (optionalBefore closer (expression steps)) last tokens found rest) :
    ∃ taken, tokens = taken ++ rest ∧ Optional taken found := by
  rcases reads_optionalBefore.mp read with ⟨_, rfl, rfl⟩ | ⟨_, expr, one, rfl⟩
  · exact ⟨[], rfl, .absent⟩
  · obtain ⟨taken, rfl, derived⟩ := (expressionsSound steps).expression one
    exact ⟨taken, rfl, .present derived⟩

theorem variableDeclaration_derives {steps : Nat} {last word : Token} {tokens rest : List Token} {stmt : Stmt}
    (declares : word.kind = .varWord) (read : Reads (variableDeclaration (expression steps)) last tokens stmt rest) :
    ∃ taken, tokens = taken ++ rest ∧ VariableDeclaration (word :: taken) stmt := by
  obtain ⟨name, after, initial, closing, rfl, names, one, ends, rfl⟩ := reads_variableDeclaration.mp read
  rcases reads_initializer.mp one with ⟨_, rfl, rfl⟩ | ⟨sign, after, expr, rfl, assigns, two, rfl⟩
  · exact ⟨[name, closing], rfl, .bare declares names ends⟩
  · obtain ⟨taken, rfl, derived⟩ := (expressionsSound steps).expression two
    exact ⟨name :: sign :: (taken ++ [closing]), by simp, .initialized declares names assigns derived ends⟩

theorem expressionStatement_derives {steps : Nat} {last : Token} {tokens rest : List Token} {stmt : Stmt}
    (read : Reads (expressionStatement (expression steps)) last tokens stmt rest) :
    ∃ taken closing expr, tokens = taken ++ closing :: rest ∧ closing.kind = .semicolon ∧ stmt = .expression expr ∧
      Expression .expression taken expr := by
  obtain ⟨expr, closing, one, ends, rfl⟩ := reads_expressionStatement.mp read
  obtain ⟨taken, rfl, derived⟩ := (expressionsSound steps).expression one
  exact ⟨taken, closing, expr, rfl, ends, rfl, derived⟩

theorem furtherParameters_derive {steps count : Nat} {last : Token} {tokens rest found : List Token}
    (read : Reads (furtherParameters count steps) last tokens found rest) :
    ∃ taken, tokens = taken ++ rest ∧ (∀ parameter ∈ found, parameter.kind = .identifier) ∧
      count + found.length ≤ listLimit ∧ found ≠ [] ∧
      Separated (found.map fun parameter => [parameter]) taken := by
  induction steps generalizing count tokens found with
  | zero => exact absurd read reads_outOfSteps
  | succ steps ih =>
    obtain ⟨few, parameter, behind, rfl, names, other⟩ := reads_furtherParameters.mp read
    have limit : maxArguments = listLimit := rfl
    rcases other with ⟨_, rfl, rfl⟩ | ⟨mark, after, others, rfl, divides, more, rfl⟩
    · refine ⟨[parameter], rfl, by simpa using names, ?_, by simp, .last [parameter]⟩
      simp only [List.length_singleton]
      omega
    · obtain ⟨taken, rfl, each, enough, some, separated⟩ := ih more
      obtain ⟨next, others, rfl⟩ := List.exists_cons_of_ne_nil some
      refine ⟨parameter :: mark :: taken, rfl, List.forall_mem_cons.mpr ⟨names, each⟩, ?_, by simp,
        .more divides separated⟩
      simp only [List.length_cons] at enough ⊢
      omega

theorem parameterList_derives {steps : Nat} {last : Token} {tokens rest found : List Token}
    (read : Reads (parameterList steps) last tokens found rest) :
    ∃ taken, tokens = taken ++ rest ∧ (∀ parameter ∈ found, parameter.kind = .identifier) ∧
      found.length ≤ listLimit ∧ Separated (found.map fun parameter => [parameter]) taken := by
  rcases reads_parameterList.mp read with ⟨_, rfl, rfl⟩ | ⟨_, further⟩
  · exact ⟨[], rfl, by simp, Nat.zero_le _, .none⟩
  · obtain ⟨taken, rfl, each, few, _, separated⟩ := furtherParameters_derive further
    exact ⟨taken, rfl, each, by omega, separated⟩

/-- The front of the tokens is a statement; if it could still take an `else`, none follows. -/
def StatementFronted (tokens : List Token) (stmt : Stmt) (rest : List Token) : Prop :=
  ∃ taken dangles, tokens = taken ++ rest ∧ Statement True (.statement dangles) taken stmt ∧
    (dangles = true → ¬ StartsWith [.elseWord] rest)

structure StatementsSound (steps : Nat) : Prop where
  statement : ∀ {last tokens stmt rest}, Reads (statement steps) last tokens stmt rest →
    StatementFronted tokens stmt rest
  declaration : ∀ {nested last tokens found rest}, Reads (declaration nested steps) last tokens found rest →
    ∃ stmt taken, found = some stmt ∧ tokens = taken ++ rest ∧ Statement True .declaration taken stmt
  declarations : ∀ {nested last tokens stmts rest}, Reads (declarations nested steps) last tokens stmts rest →
    ∃ taken, tokens = taken ++ rest ∧ Declarations True taken stmts ∧ StopsDeclarations nested rest

section

variable {steps : Nat} (ih : StatementsSound steps) {last word : Token} {tokens rest : List Token} {stmt : Stmt}
include ih

private theorem ifStatement_derives (asks : word.kind = .ifWord)
    (read : Reads (ifStatement word (expression steps) (statement steps)) last tokens stmt rest) :
    StatementFronted (word :: tokens) stmt rest := by
  obtain ⟨opening, after, condition, closing, behind, consequence, later, rfl, opens, one, closes, two, other⟩ :=
    reads_ifStatement.mp read
  obtain ⟨conditions, rfl, decision⟩ := (expressionsSound steps).expression one
  obtain ⟨thens, inside, rfl, yes, pending⟩ := ih.statement two
  rcases other with ⟨stops, rfl, rfl⟩ | ⟨other, following, alternative, rfl, divides, three, rfl⟩
  · exact ⟨word :: opening :: (conditions ++ closing :: thens), true, by simp,
      .branch asks opens decision closes yes, fun _ => stops⟩
  · obtain ⟨elses, dangles, rfl, no, pending'⟩ := ih.statement three
    have owned : inside = false := by
      cases inside with
      | false => rfl
      | true => exact absurd ⟨other, _, rfl, List.mem_singleton.mpr divides⟩ (pending rfl)
    exact ⟨word :: opening :: (conditions ++ closing :: (thens ++ other :: elses)), dangles, by simp,
      .branchElse asks opens decision closes yes (fun _ => owned) divides no, pending'⟩

private theorem whileStatement_derives (loops : word.kind = .whileWord)
    (read : Reads (whileStatement word (expression steps) (statement steps)) last tokens stmt rest) :
    StatementFronted (word :: tokens) stmt rest := by
  obtain ⟨opening, after, condition, closing, behind, repeated, rfl, opens, one, closes, two, rfl⟩ :=
    reads_whileStatement.mp read
  obtain ⟨conditions, rfl, decision⟩ := (expressionsSound steps).expression one
  obtain ⟨bodies, dangles, rfl, body, pending⟩ := ih.statement two
  exact ⟨word :: opening :: (conditions ++ closing :: bodies), dangles, by simp,
    .whileLoop loops opens decision closes body, pending⟩

private theorem forStatement_derives (loops : word.kind = .forWord)
    (read : Reads (forStatement word (expression steps) (statement steps)) last tokens stmt rest) :
    StatementFronted (word :: tokens) stmt rest := by
  obtain ⟨opening, after, initial, second, condition, middle, third, increment, closing, behind, repeated,
    rfl, opens, one, two, divides, three, closes, four, rfl⟩ := reads_forStatement.mp read
  obtain ⟨conditions, rfl, decision⟩ := optional_derives two
  obtain ⟨increments, rfl, step⟩ := optional_derives three
  obtain ⟨bodies, dangles, rfl, body, pending⟩ := ih.statement four
  have started : ∀ {starts first}, after = starts ++ (conditions ++ middle :: (increments ++ closing :: (bodies ++ rest))) →
      Beginning starts first → initial = some first →
      StatementFronted (word :: opening :: after) (forLoop word initial condition increment repeated) rest := by
    rintro starts first rfl beginning rfl
    exact ⟨word :: opening :: (starts ++ (conditions ++ middle :: (increments ++ closing :: bodies))), dangles,
      by simp, .forLoopFrom loops opens beginning decision divides step closes body, pending⟩
  rcases reads_forInitializer.mp one with ⟨_, first, begun, rfl⟩ | ⟨token, after, rfl, other⟩
  · obtain ⟨taken, ending, expr, rfl, ends, rfl, derived⟩ := expressionStatement_derives begun
    exact started (by simp) (.expression derived ends) rfl
  · rcases other with ⟨begins, rfl, rfl⟩ | ⟨declares, first, begun, rfl⟩
    · exact ⟨word :: opening :: token :: (conditions ++ middle :: (increments ++ closing :: bodies)), dangles,
        by simp, .forLoop loops opens begins decision divides step closes body, pending⟩
    · obtain ⟨taken, rfl, declared⟩ := variableDeclaration_derives declares begun
      exact started (by simp) (.declare declared) rfl

private theorem block_derives {stmts : List Stmt} (read : Reads (closedBlock (declarations true steps)) last tokens stmts rest) :
    ∃ items : List (List Token × Stmt), ∃ ending, tokens = (items.map Prod.fst).flatten ++ ending :: rest ∧
      ending.kind = .rightBrace ∧ stmts = items.map Prod.snd ∧
      ∀ item ∈ items, Statement True .declaration item.1 item.2 := by
  obtain ⟨ending, one, ends⟩ := reads_closedBlock.mp read
  obtain ⟨taken, rfl, ⟨items, each, rfl, rfl⟩, _⟩ := ih.declarations one
  exact ⟨items, ending, rfl, ends, rfl, each⟩

private theorem functionDeclaration_derives (declares : word.kind = .fnWord)
    (read : Reads (functionDeclaration steps (declarations true steps)) last tokens stmt rest) :
    ∃ taken, word :: tokens = taken ++ rest ∧ Statement True .declaration taken stmt := by
  obtain ⟨name, opening, after, parameters, closing, brace, behind, body, rfl, names, opens, one, closes, begins,
    two, rfl⟩ := reads_functionDeclaration.mp read
  obtain ⟨listed, rfl, each, few, separated⟩ := parameterList_derives one
  obtain ⟨items, ending, rfl, ends, rfl, inner⟩ := block_derives ih two
  exact ⟨word :: name :: opening :: (listed ++ closing :: brace :: ((items.map Prod.fst).flatten ++ [ending])),
    by simp, .function declares names opens each few separated closes begins inner ends⟩

private theorem statement_derives (read : Reads (statement (steps + 1)) last tokens stmt rest) :
    StatementFronted tokens stmt rest := by
  have settled : ∀ taken, tokens = taken ++ rest → Statement True (.statement false) taken stmt →
      StatementFronted tokens stmt rest :=
    fun taken same derived => ⟨taken, false, same, derived, fun impossible => Bool.noConfusion impossible⟩
  rcases reads_statement.mp read with ⟨_, one⟩ | ⟨word, after, rfl, other⟩
  · obtain ⟨taken, closing, expr, rfl, ends, rfl, derived⟩ := expressionStatement_derives one
    exact settled (taken ++ [closing]) (by simp) (.expression derived ends)
  rcases other with ⟨kind, one⟩ | ⟨kind, one⟩ | ⟨kind, one⟩ | ⟨kind, body, one, rfl⟩ |
    ⟨kind, closing, rfl, ends, rfl⟩ | ⟨kind, closing, rfl, ends, rfl⟩ | ⟨kind, one⟩
  · exact forStatement_derives ih kind one
  · exact ifStatement_derives ih kind one
  · exact whileStatement_derives ih kind one
  · obtain ⟨items, ending, rfl, ends, rfl, inner⟩ := block_derives ih one
    exact settled (word :: ((items.map Prod.fst).flatten ++ [ending])) (by simp) (.block kind inner ends)
  · exact settled [word, closing] rfl (.breakLoop kind ends)
  · exact settled [word, closing] rfl (.continueLoop kind ends)
  · obtain ⟨result, closing, two, ends, rfl⟩ := reads_returnStatement.mp one
    obtain ⟨taken, rfl, value⟩ := optional_derives two
    exact settled (word :: (taken ++ [closing])) (by simp) (.returnValue kind value ends)

private theorem declaration_derives {nested : Bool} {found : Option Stmt}
    (read : Reads (declaration nested (steps + 1)) last tokens found rest) :
    ∃ stmt taken, found = some stmt ∧ tokens = taken ++ rest ∧ Statement True .declaration taken stmt := by
  obtain ⟨stmt, rfl, other⟩ := reads_plainDeclaration.mp (reads_declaration.mp read)
  rcases other with ⟨_, one⟩ | ⟨word, after, rfl, ⟨kind, one⟩ | ⟨kind, one⟩⟩
  · obtain ⟨taken, dangles, rfl, derived, _⟩ := ih.statement one
    exact ⟨stmt, taken, rfl, rfl, .statement derived⟩
  · obtain ⟨taken, rfl, declared⟩ := variableDeclaration_derives kind one
    exact ⟨stmt, word :: taken, rfl, rfl, .declare declared⟩
  · obtain ⟨taken, same, derived⟩ := functionDeclaration_derives ih kind one
    exact ⟨stmt, taken, rfl, same, derived⟩

private theorem declarations_derive {nested : Bool} {stmts : List Stmt}
    (read : Reads (declarations nested (steps + 1)) last tokens stmts rest) :
    ∃ taken, tokens = taken ++ rest ∧ Declarations True taken stmts ∧ StopsDeclarations nested rest := by
  rcases reads_declarations.mp read with ⟨stops, rfl, rfl⟩ | ⟨_, found, behind, others, one, more, rfl⟩
  · exact ⟨[], rfl, ⟨[], by simp, rfl, rfl⟩, stops⟩
  · obtain ⟨stmt, taken, rfl, rfl, derived⟩ := ih.declaration one
    obtain ⟨later, rfl, ⟨items, each, rfl, rfl⟩, stops⟩ := ih.declarations more
    exact ⟨taken ++ (items.map Prod.fst).flatten, by simp,
      ⟨(taken, stmt) :: items, List.forall_mem_cons.mpr ⟨derived, each⟩, rfl, rfl⟩, stops⟩

end

theorem statementsSound (steps : Nat) : StatementsSound steps := by
  induction steps with
  | zero =>
    constructor
    all_goals
      intros
      exact absurd ‹_› reads_outOfSteps
  | succ steps ih => exact ⟨statement_derives ih, declaration_derives ih, declarations_derive ih⟩

end Treewalk.Parser
