import Treewalk.Proofs.BlockEnds
import Treewalk.Proofs.ViablePrefix

/-! How far an error reaches. An expression never looks behind a semicolon, and recovery ends there: so a
simple statement is read, or given up, as if nothing followed it. A class is stepped over up to the brace
that closes it. In both cases what stands behind is read as if it stood alone. -/

namespace Treewalk

def Parsed.before {α : Type} (back : List Token) : Parsed α → Parsed α
  | done value errors rest => done value errors (rest ++ back)
  | failed errors rest => failed errors (rest ++ back)
  | exhausted => exhausted

theorem Parsed.before_reportedAfter {α : Type} (back : List Token) (errors : List Diagnostic) (outcome : Parsed α) :
    (outcome.before back).reportedAfter errors = (outcome.reportedAfter errors).before back := by
  cases outcome <;> rfl

namespace Parser

/-- A semicolon is to the parser what the end of the tokens is: it stops there, and what stands behind it
does not matter. -/
def StopsAtSemicolon {α : Type} (parser : Parser α) : Prop :=
  ∀ last front ending back, ending.kind = .semicolon →
    parser last (front ++ ending :: back) = (parser ending front).before (ending :: back)

namespace StopsAtSemicolon

variable {α β : Type}

theorem succeed (value : α) : StopsAtSemicolon (pure value) :=
  fun _ _ _ _ _ => rfl

theorem outOfSteps : StopsAtSemicolon (Parser.outOfSteps : Parser α) :=
  fun _ _ _ _ _ => rfl

theorem report (token : Token) (defect : Defect) : StopsAtSemicolon (report token defect) :=
  fun _ _ _ _ _ => rfl

theorem fail (token : Token) (defect : Defect) : StopsAtSemicolon (fail token defect : Parser α) :=
  fun _ _ _ _ _ => rfl

theorem bind {parser : Parser α} {next : α → Parser β} (first : StopsAtSemicolon parser)
    (rest : ∀ value, StopsAtSemicolon (next value)) : StopsAtSemicolon (parser >>= next) := by
  intro last front ending back closes
  change andThen parser next last (front ++ ending :: back) = (andThen parser next ending front).before (ending :: back)
  unfold andThen
  rw [first last front ending back closes]
  cases parser ending front with
  | exhausted => rfl
  | failed errors left => rfl
  | done value errors left =>
    change (next value last (left ++ ending :: back)).reportedAfter errors = _
    rw [rest value last left ending back closes, Parsed.before_reportedAfter]

theorem peek : StopsAtSemicolon peek := by
  intro last front ending back _
  cases front <;> rfl

theorem accept {kinds : List TokenKind} (other : .semicolon ∉ kinds) : StopsAtSemicolon (accept kinds) := by
  intro last front ending back closes
  cases front with
  | nil => simp [Parser.accept, Parsed.before, closes, other]
  | cons token front => by_cases member : token.kind ∈ kinds <;> simp [Parser.accept, Parsed.before, member]

theorem nextIs {kinds : List TokenKind} (other : .semicolon ∉ kinds) : StopsAtSemicolon (nextIs kinds) := by
  intro last front ending back closes
  cases front with
  | nil => simp [Parser.nextIs, Parsed.before, closes, other]
  | cons token front => rfl

theorem bindAccept {kinds : List TokenKind} (other : .semicolon ∉ kinds) {next : Option Token → Parser β}
    (none : StopsAtSemicolon (next none)) (some : ∀ token, StopsAtSemicolon (next (some token))) :
    StopsAtSemicolon (Parser.accept kinds >>= next) := by
  apply bind (accept other)
  rintro (_ | token)
  · exact none
  · exact some token

theorem bindTest {test : Parser Bool} {yes no : Parser β} (first : StopsAtSemicolon test)
    (accepted : StopsAtSemicolon yes) (refused : StopsAtSemicolon no) :
    StopsAtSemicolon (test >>= fun b => if b then yes else no) := by
  apply bind first
  rintro (_ | _)
  · exact refused
  · exact accepted

theorem expect {kind : TokenKind} (other : kind ≠ .semicolon) (defect : Defect) : StopsAtSemicolon (expect kind defect) :=
  bindAccept (by simpa using other.symm) (bind peek fun _ => fail _ _) fun _ => succeed _

theorem checkCount (count : Nat) (defect : Defect) : StopsAtSemicolon (checkCount count defect) := by
  apply bind peek
  intro token
  split
  · exact succeed ()
  · exact report token defect

theorem noExpression : StopsAtSemicolon noExpression := by
  apply bind peek
  intro token
  split
  · exact fail _ _
  · exact fail _ _

theorem increment (sign : Token) : StopsAtSemicolon (increment sign) :=
  bind (expect (by decide) _) fun _ => succeed _

end StopsAtSemicolon

structure ExpressionsStop (steps : Nat) : Prop where
  expression : StopsAtSemicolon (expression steps)
  ternary : StopsAtSemicolon (ternary steps)
  binary : ∀ levels : List Level, (∀ level ∈ levels, .semicolon ∉ level.operators) → StopsAtSemicolon (binary levels steps)
  operands : ∀ level tighter left, (∀ each ∈ level :: tighter, .semicolon ∉ each.operators) →
    StopsAtSemicolon (operands level tighter left steps)
  unary : StopsAtSemicolon (unary steps)
  calls : ∀ callee, StopsAtSemicolon (calls callee steps)
  argumentList : StopsAtSemicolon (argumentList steps)
  furtherArguments : ∀ count, StopsAtSemicolon (furtherArguments count steps)
  primary : StopsAtSemicolon (primary steps)

theorem expressionsStop (steps : Nat) : ExpressionsStop steps := by
  induction steps with
  | zero =>
    constructor
    case binary =>
      intro levels _
      cases levels <;> exact .outOfSteps
    all_goals
      intros
      exact .outOfSteps
  | succ steps ih =>
    constructor
    case expression =>
      unfold Parser.expression
      refine .bind ih.ternary fun left => .bindAccept (by decide) (.succeed left) fun sign => ?_
      refine .bind ih.expression fun value => ?_
      split
      · exact .succeed _
      · exact .bind (.report _ _) fun _ => .succeed _
    case ternary =>
      unfold Parser.ternary
      refine .bind (ih.binary levels (by decide)) fun condition => .bindAccept (by decide) (.succeed condition) fun _ => ?_
      refine .bind ih.ternary fun first => .bind (.expect (by decide) _) fun _ => ?_
      exact .bind ih.ternary fun second => .succeed _
    case binary =>
      intro levels other
      cases levels with
      | nil => exact ih.unary
      | cons level tighter =>
        refine .bind (ih.binary tighter (List.forall_mem_cons.mp other).2) fun left => ?_
        exact ih.operands level tighter left other
    case operands =>
      intro level tighter left other
      obtain ⟨here, tight⟩ := List.forall_mem_cons.mp other
      refine .bindAccept here (.succeed left) fun operator => ?_
      exact .bind (ih.binary tighter tight) fun right => ih.operands level tighter _ other
    case unary =>
      unfold Parser.unary
      refine .bindAccept (by decide) (.bind ih.primary ih.calls) fun sign => ?_
      dsimp only
      split
      · exact .increment sign
      · exact .bind ih.unary fun _ => .succeed _
    case calls =>
      intro callee
      refine .bindAccept (by decide) (.succeed callee) fun _ => .bind ih.argumentList fun found => ?_
      exact .bind (.expect (by decide) _) fun paren => ih.calls _
    case argumentList => exact .bindTest (.nextIs (by decide)) (.succeed []) (ih.furtherArguments 0)
    case furtherArguments =>
      intro count
      refine .bind (.checkCount count _) fun _ => .bind ih.expression fun argument => ?_
      refine .bindAccept (by decide) (.succeed _) fun _ => ?_
      exact .bind (ih.furtherArguments (count + 1)) fun _ => .succeed _
    case primary =>
      unfold Parser.primary
      refine .bindAccept (by decide) .noExpression fun token => ?_
      dsimp only
      split
      · exact .succeed _
      · refine .bind ih.expression fun inner => ?_
        exact .bind (.expect (by decide) _) fun _ => .succeed _

/-- Tokens of these kinds end a statement, or start one that is more than an expression. -/
def statementBounds : List TokenKind :=
  [.semicolon, .leftBrace, .rightBrace, .classWord, .fnWord, .varWord, .forWord, .ifWord, .whileWord, .returnWord,
   .breakWord, .continueWord]

theorem statementStarts_bounds : .leftBrace :: statementStarts ⊆ statementBounds := by
  decide

/-- Nothing but the semicolon at the end bounds a statement. -/
structure Simple (inner : List Token) (ending : Token) : Prop where
  closes : ending.kind = .semicolon
  inside : ∀ token ∈ inner, token.kind ∉ statementBounds

instance (inner : List Token) (ending : Token) : Decidable (Simple inner ending) :=
  decidable_of_iff (ending.kind = .semicolon ∧ ∀ token ∈ inner, token.kind ∉ statementBounds)
    ⟨fun holds => ⟨holds.1, holds.2⟩, fun simple => ⟨simple.closes, simple.inside⟩⟩

section

variable {inner left back : List Token} {ending : Token}

theorem Simple.suffix (simple : Simple inner ending) (within : left <:+ inner) : Simple left ending :=
  ⟨simple.closes, fun token member => simple.inside token (within.subset member)⟩

theorem Simple.tail {token : Token} (simple : Simple (token :: inner) ending) : Simple inner ending :=
  simple.suffix (List.suffix_cons token inner)

theorem Simple.unclosed {token : Token} (simple : Simple (token :: inner) ending) : token.kind ≠ .semicolon := by
  intro closes
  exact simple.inside token List.mem_cons_self (closes ▸ by decide)

theorem resume_behind (closes : ending.kind = .semicolon) : resume false ending back = back := by
  cases back with
  | nil => rfl
  | cons token rest => simp [resume, closes]

theorem Simple.resume {previous : Token} (simple : Simple inner ending) (before : previous.kind ≠ .semicolon) :
    resume false previous (inner ++ ending :: back) = back := by
  induction inner generalizing previous with
  | nil =>
    have goesOn : .semicolon ∉ statementStarts := by decide
    rw [List.nil_append, Parser.resume, resume_behind simple.closes]
    simp [closesBlock, before, simple.closes, goesOn]
  | cons token inner ih =>
    have goesOn : token.kind ∉ statementStarts :=
      fun starts => simple.inside token List.mem_cons_self (statementStarts_bounds (List.mem_cons_of_mem _ starts))
    rw [List.cons_append, Parser.resume, ih simple.tail simple.unclosed]
    simp [closesBlock, before, goesOn]

/-- Recovery that starts in a simple statement ends behind its semicolon. -/
theorem Simple.synchronize (simple : Simple inner ending) : synchronize false (inner ++ ending :: back) = back := by
  cases inner with
  | nil => exact resume_behind simple.closes
  | cons token inner => exact simple.tail.resume simple.unclosed

/-- A simple statement is an expression. -/
theorem declaration_expression {token : Token} (kind : token.kind ∉ .leftBrace :: statementStarts) (steps : Nat) (last : Token)
    (rest : List Token) : declaration false (steps + 2) last (token :: rest) =
      recover false (do return some (← expressionStatement (expression steps))) last (token :: rest) := by
  have other : ∀ kinds : List TokenKind, kinds ⊆ .leftBrace :: statementStarts → token.kind ∉ kinds :=
    fun _ within member => kind (within member)
  have undeclared := other [.varWord, .fnWord, .classWord] (by decide)
  have unmarked := other [.forWord, .ifWord, .whileWord, .leftBrace, .breakWord, .continueWord, .returnWord] (by decide)
  have plain : statement (steps + 1) last (token :: rest) = expressionStatement (expression steps) last (token :: rest) := by
    rw [statement, accept_cons, if_neg unmarked]
  rw [declaration]
  unfold recover plainDeclaration
  rw [accept_cons, if_neg undeclared]
  simp only [Bind.bind, andThen, plain]

theorem expressionStatement_cases (value : Parser Expr) (last : Token) (tokens : List Token) :
    expressionStatement value last tokens = match value last tokens with
      | .done expr errors (token :: rest) =>
        if token.kind = .semicolon then .done (.expression expr) errors rest
        else .failed (errors ++ [.grammar token (.expected .semicolonAfterExpression)]) (token :: rest)
      | .done _ errors [] => .failed (errors ++ [.grammar last (.expected .semicolonAfterExpression)]) []
      | .failed errors rest => .failed errors rest
      | .exhausted => .exhausted := by
  change andThen value _ last tokens = _
  unfold andThen
  cases value last tokens with
  | exhausted => rfl
  | failed errors rest => rfl
  | done expr errors rest =>
    cases rest with
    | nil => rfl
    | cons token rest =>
      dsimp only
      rw [expect_cons, apply_ite (Parsed.reportedAfter errors)]
      simp only [pure, succeed, Parsed.reportedAfter, List.append_nil]

/-- An expression in front of the semicolon is read, or there is an error somewhere before. -/
theorem Simple.expression_read (simple : Simple inner ending) {steps : Nat} (enough : 20 * inner.length + 12 ≤ steps) :
    (∃ stmt errors, (∀ error ∈ errors, error.token ∈ inner ++ [ending]) ∧ ∀ last back,
      expressionStatement (expression steps) last (inner ++ ending :: back) = .done stmt errors back) ∨
    ∃ left errors, left <:+ inner ∧ (∀ error ∈ errors, error.token ∈ inner ++ [ending]) ∧ ∀ last back,
      expressionStatement (expression steps) last (inner ++ ending :: back) = .failed errors (left ++ ending :: back) := by
  -- The expression is read as if the semicolon were the end of the tokens: that run alone decides.
  have ended := (expressionsEnd steps).expression inner.length enough ending inner (Nat.le_refl _)
  have passes : PassesTo [] 0 ending inner _ := (expressionsLevel steps).expression ending inner
  have read := fun last back => (expressionsStop steps).expression last inner ending back simple.closes
  cases outcome : expression steps ending inner with
  | exhausted =>
    rw [outcome] at ended
    exact ended.elim
  | failed errors left =>
    rw [outcome] at passes read
    obtain ⟨⟨taken, passes⟩, _⟩ := passes
    obtain ⟨within, located⟩ := passes.within
    refine .inr ⟨left, errors, within, fun error member => (located error member).2, fun last back => ?_⟩
    rw [expressionStatement_cases, read, Parsed.before]
  | done value errors left =>
    rw [outcome] at passes read
    obtain ⟨taken, passes⟩ := passes
    obtain ⟨within, located⟩ := passes.within
    cases left with
    | nil =>
      refine .inl ⟨.expression value, errors, fun error member => (located error member).2, fun last back => ?_⟩
      rw [expressionStatement_cases, read, Parsed.before]
      exact if_pos simple.closes
    | cons token left =>
      refine .inr ⟨token :: left, errors ++ [.grammar token (.expected .semicolonAfterExpression)], within, ?_, fun last back => ?_⟩
      · intro error member
        rcases List.mem_append.mp member with early | last
        · exact (located error early).2
        · obtain rfl := List.mem_singleton.mp last
          exact List.mem_append_left _ (within.subset List.mem_cons_self)
      · rw [expressionStatement_cases, read, Parsed.before]
        exact if_neg (simple.suffix within).unclosed

/-- A simple statement is read or given up, with errors at its own tokens, whatever stands behind it. -/
theorem Simple.declaration_read (simple : Simple inner ending) : ∃ found errors,
    (∀ error ∈ errors, error.token ∈ inner ++ [ending]) ∧ ∀ last back, ∃ least, ∀ steps, least ≤ steps →
      declaration false steps last (inner ++ ending :: back) = .done found errors back := by
  let steps := 20 * inner.length + 12
  have starts : ∀ last back, declaration false (steps + 2) last (inner ++ ending :: back) =
      recover false (do return some (← expressionStatement (expression steps))) last (inner ++ ending :: back) := by
    intro last back
    cases inner with
    | nil =>
      refine declaration_expression ?_ _ last back
      rw [simple.closes]
      decide
    | cons token inner =>
      exact declaration_expression (fun kind => simple.inside token List.mem_cons_self (statementStarts_bounds kind)) _ last _
  have goesOn : ∀ {found errors last back}, declaration false (steps + 2) last (inner ++ ending :: back) = .done found errors back →
      ∃ least, ∀ more, least ≤ more → declaration false more last (inner ++ ending :: back) = .done found errors back := by
    intro found errors last back read
    refine ⟨steps + 2, fun more enough => ?_⟩
    rw [declaration_more false enough (by simp [read]), read]
  rcases simple.expression_read (Nat.le_refl steps) with ⟨stmt, errors, located, read⟩ | ⟨left, errors, within, located, read⟩
  · refine ⟨some stmt, errors, located, fun last back => goesOn ?_⟩
    rw [starts]
    simp [recover, Bind.bind, andThen, read, pure, succeed, Parsed.reportedAfter]
  · refine ⟨none, errors, located, fun last back => goesOn ?_⟩
    rw [starts]
    simp [recover, Bind.bind, andThen, read, (simple.suffix within).synchronize]

end

section

variable {inner back : List Token} {token : Token} {depth next level : Nat}

theorem Rises.tail (rises : Rises depth (token :: inner)) (levels : closings [token] + next = depth + openings [token]) :
    Rises next inner := by
  intro front within
  have part := rises (token :: front) (List.cons_prefix_cons.mpr ⟨rfl, within⟩)
  rw [← List.singleton_append, closings_append, openings_append] at part
  omega

theorem dropBraces_cons (levels : closings [token] + next = depth + openings [token]) (rest : List Token) :
    dropBraces (depth + 1) (token :: rest) = dropBraces (next + 1) rest := by
  rw [closings_singleton, openings_singleton] at levels
  rw [dropBraces]
  by_cases opens : token.kind = .leftBrace
  · obtain rfl : next = depth + 1 := by simpa [opens] using levels
    simp [opens]
  by_cases closes : token.kind = .rightBrace
  · obtain rfl : depth = next + 1 := by simpa [closes, Nat.add_comm] using levels.symm
    simp [closes]
  · obtain rfl : next = depth := by simpa [opens, closes] using levels
    simp [opens, closes]

/-- Braces that are closed again do not matter. -/
theorem Rises.dropBraces (rises : Rises depth inner) (levels : closings inner + level = depth + openings inner) :
    dropBraces (depth + 1) (inner ++ back) = dropBraces (level + 1) back := by
  induction inner generalizing depth with
  | nil =>
    obtain rfl : level = depth := by simpa [closings, openings] using levels
    rfl
  | cons token inner ih =>
    obtain ⟨next, here⟩ := Nat.le.dest (rises [token] ⟨inner, rfl⟩)
    rw [← List.singleton_append, closings_append, openings_append] at levels
    rw [List.cons_append, dropBraces_cons here, ih (rises.tail here) (by omega)]

theorem Balanced.dropBraces {closing : Token} (balanced : Balanced inner) (closes : closing.kind = .rightBrace) :
    dropBraces 1 (inner ++ closing :: back) = back := by
  have rises : Rises 0 inner := by
    intro front within
    rw [Nat.zero_add]
    exact balanced.within front within
  have levels : closings inner + 0 = 0 + openings inner := by rw [balanced.whole, Nat.zero_add, Nat.add_zero]
  rw [rises.dropBraces levels, Parser.dropBraces, Parser.dropBraces]
  simp [closes]

/-- A class is reported at its first word, and dropped with its body. -/
theorem declaration_class {word name opening closing : Token} (declares : word.kind = .classWord) (names : name.kind = .identifier)
    (opens : opening.kind = .leftBrace) (closes : closing.kind = .rightBrace) (balanced : Balanced inner) (steps : Nat)
    (last : Token) : declaration false (steps + 1) last (word :: name :: opening :: (inner ++ closing :: back)) =
      .done none [.grammar word .classDeclaration] back := by
  rw [declaration]
  unfold recover plainDeclaration skipClass skipBraces
  simp [Bind.bind, andThen, accept, report, pure, succeed, Parsed.reportedAfter, declares, names, opens,
    balanced.dropBraces closes]

end
end Parser

namespace Program
open Treewalk.Parser

variable {last : Token}

theorem ofTokens_end (ends : last.isEnd = true) : ofTokens [last] = ⟨[], []⟩ := by
  obtain ⟨least, read⟩ := ofTokens_declarations ends (List.forall_mem_nil _)
  have nothing := read (least + 1) (Nat.le_succ least)
  rw [declarations_nil, Parsed.done.injEq, List.nil_append] at nothing
  obtain ⟨statements, errors, -⟩ := nothing
  exact congrArg₂ Program.mk statements.symm errors.symm

/-- What is wrong with a simple statement is found at its own tokens, and what stands behind its semicolon is
read as if it stood alone. -/
theorem ofTokens_simple (inner rest : List Token) (ending last : Token) (simple : Simple inner ending) (ends : last.isEnd = true)
    (plain : ∀ token ∈ inner ++ rest, token.isEnd = false) :
    ofTokens (inner ++ [ending] ++ rest ++ [last]) =
        ⟨(ofTokens (inner ++ [ending] ++ [last])).statements ++ (ofTokens (rest ++ [last])).statements,
          (ofTokens (inner ++ [ending] ++ [last])).errors ++ (ofTokens (rest ++ [last])).errors⟩ ∧
      ∀ error ∈ (ofTokens (inner ++ [ending] ++ [last])).errors, error.token ∈ inner ++ [ending] := by
  obtain ⟨plainInner, plainRest⟩ := List.forall_mem_append.mp plain
  obtain ⟨found, errors, located, reads⟩ := simple.declaration_read
  have marks : ending.isEnd = false := by simp [Token.isEnd, simple.closes]
  have first : ∀ back, (∀ token ∈ back, token.isEnd = false) → ofTokens (inner ++ [ending] ++ back ++ [last]) =
      ⟨found.toList ++ (ofTokens (back ++ [last])).statements, errors ++ (ofTokens (back ++ [last])).errors⟩ := by
    intro back plainBack
    have read := reads last back
    have plainAll : ∀ token ∈ inner ++ ending :: back, token.isEnd = false := by
      simpa [marks, or_imp, forall_and] using ⟨plainInner, plainBack⟩
    have same : inner ++ [ending] ++ back = inner ++ ending :: back := by simp
    rw [same]
    cases shape : inner ++ ending :: back with
    | nil => simp at shape
    | cons token tokens =>
      rw [shape] at read plainAll
      exact ofTokens_declaration ends plainAll plainBack read
  have alone := first [] (List.forall_mem_nil _)
  rw [List.append_nil, List.nil_append, ofTokens_end ends, List.append_nil, List.append_nil] at alone
  rw [first rest plainRest, alone]
  exact ⟨rfl, located⟩

/-- `f ( , else ;` is given up with one error, and so is `) ;` behind it, but `b ;` is read. -/
theorem brokenCall_spoils_itself :
    let inner := List.map spelled [.identifier, .leftParen, .comma, .elseWord]
    let rest := List.map spelled [.rightParen, .semicolon, .identifier, .semicolon]
    let ending := spelled .semicolon
    let last : Token := .endAt {}
    Simple inner ending ∧ (ofTokens (inner ++ [ending] ++ [last])).errors.length = 1 ∧
      (ofTokens (rest ++ [last])).errors.length = 1 ∧
      ofTokens (inner ++ [ending] ++ rest ++ [last]) =
        ⟨(ofTokens (inner ++ [ending] ++ [last])).statements ++ (ofTokens (rest ++ [last])).statements,
          (ofTokens (inner ++ [ending] ++ [last])).errors ++ (ofTokens (rest ++ [last])).errors⟩ ∧
      ∀ error ∈ (ofTokens (inner ++ [ending] ++ [last])).errors, error.token ∈ inner ++ [ending] := by
  intro inner rest ending last
  have simple : Simple inner ending := by decide +kernel
  exact ⟨simple, by decide +kernel, by decide +kernel,
    ofTokens_simple inner rest ending last simple rfl (by decide +kernel)⟩

/-- A class is stepped over up to the brace that closes it: there is one error at its first word, and what
stands behind it is read as if it stood alone. -/
theorem ofTokens_class (front inner rest : List Token) (word name opening closing last : Token)
    (valid : (ofTokens (front ++ [last])).errors = []) (declares : word.kind = .classWord) (names : name.kind = .identifier)
    (opens : opening.kind = .leftBrace) (closes : closing.kind = .rightBrace) (balanced : Balanced inner)
    (ends : last.isEnd = true) (plain : ∀ token ∈ front ++ inner ++ rest, token.isEnd = false) :
    ofTokens (front ++ (word :: name :: opening :: (inner ++ [closing])) ++ rest ++ [last]) =
        ⟨(ofTokens (front ++ [last])).statements ++ (ofTokens (rest ++ [last])).statements,
          .grammar word .classDeclaration :: (ofTokens (rest ++ [last])).errors⟩ ∧
      (Diagnostic.grammar word .classDeclaration).message = .ofString "Classes are not supported." := by
  let back := word :: name :: opening :: (inner ++ closing :: rest)
  have marks : word.isEnd = false ∧ name.isEnd = false ∧ opening.isEnd = false ∧ closing.isEnd = false := by
    simp [Token.isEnd, declares, names, opens, closes]
  obtain ⟨plainFront, plainBoth⟩ := List.forall_mem_append.mp (List.append_assoc .. ▸ plain)
  obtain ⟨plainInner, plainRest⟩ := List.forall_mem_append.mp plainBoth
  have plainBack : ∀ token ∈ back, token.isEnd = false := by
    simpa [back, marks, or_imp, forall_and] using plainBoth
  have behind : ofTokens (back ++ [last]) =
      ⟨(ofTokens (rest ++ [last])).statements, .grammar word .classDeclaration :: (ofTokens (rest ++ [last])).errors⟩ := by
    have reads : ∃ least, ∀ steps, least ≤ steps →
        declaration false steps last back = .done none [.grammar word .classDeclaration] rest := by
      refine ⟨1, fun steps enough => ?_⟩
      obtain ⟨fewer, rfl⟩ := Nat.exists_eq_add_of_le' enough
      exact declaration_class declares names opens closes balanced fewer last
    exact ofTokens_declaration ends plainBack plainRest reads
  have free : ¬ StartsWith [.elseWord] back := by
    rintro ⟨token, others, same, kind⟩
    obtain ⟨rfl, -⟩ := List.cons_eq_cons.mp same
    simp [declares] at kind
  -- What is valid in front is derived, and goes on being read the same since no `else` follows it.
  obtain ⟨items, each, rfl, statements⟩ := (ofTokens_derives ends plainFront _).mpr ⟨valid, rfl⟩
  have joined := ofTokens_derived each ends (List.forall_mem_append.mpr ⟨plainFront, plainBack⟩) free
  rw [behind] at joined
  refine ⟨?_, rfl⟩
  rw [statements, ← joined]
  simp [back]

/-- The class in `a ; class B { ) { } class ; } ) ; b ;` is dropped with the class inside it. -/
theorem nestedClass_dropped :
    let front := List.map spelled [.identifier, .semicolon]
    let inner := List.map spelled [.rightParen, .leftBrace, .rightBrace, .classWord, .semicolon]
    let rest := List.map spelled [.rightParen, .semicolon, .identifier, .semicolon]
    let last : Token := .endAt {}
    (ofTokens (front ++ [last])).errors = [] ∧ Balanced inner ∧ (ofTokens (rest ++ [last])).errors.length = 1 ∧
      ofTokens (front ++ (spelled .classWord :: spelled .identifier :: spelled .leftBrace :: (inner ++ [spelled .rightBrace])) ++
          rest ++ [last]) =
        ⟨(ofTokens (front ++ [last])).statements ++ (ofTokens (rest ++ [last])).statements,
          .grammar (spelled .classWord) .classDeclaration :: (ofTokens (rest ++ [last])).errors⟩ := by
  intro front inner rest last
  have valid : (ofTokens (front ++ [last])).errors = [] := by
    refine List.eq_nil_of_length_eq_zero ?_
    decide +kernel
  have balanced : Balanced inner := by decide +kernel
  have dropped := ofTokens_class front inner rest (spelled .classWord) (spelled .identifier) (spelled .leftBrace)
    (spelled .rightBrace) last valid rfl rfl rfl rfl balanced rfl (by decide +kernel)
  exact ⟨valid, balanced, by decide +kernel, dropped.1⟩

end Program
end Treewalk
