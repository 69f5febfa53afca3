import Treewalk.Proofs.ParserRelocation

/-! A parser that is given enough steps never runs out of them, and more steps do not change what it
reads. The steps that a program gets are enough, since each rule hands on at most a fixed number of
them before it takes a token. -/

namespace Treewalk

def Parsed.Takes {α : Type} (least : Nat) (tokens : List Token) : Parsed α → Prop
  | .done _ _ rest => rest.length + least ≤ tokens.length
  | .failed _ _ => True
  | .exhausted => False

@[simp] theorem Parsed.reportedAfter_nil {α : Type} (outcome : Parsed α) : outcome.reportedAfter [] = outcome := by
  cases outcome <;> rfl

theorem Parsed.Takes.weaken {α : Type} {least : Nat} {tokens : List Token} {outcome : Parsed α}
    (taken : outcome.Takes least tokens) : outcome.Takes 0 tokens := by
  cases outcome with
  | exhausted => exact taken
  | failed errors rest => trivial
  | done value errors rest => exact Nat.le_trans (Nat.le_add_right rest.length least) taken

theorem Parsed.Takes.reportedAfter {α : Type} {least more : Nat} {tokens rest : List Token} {outcome : Parsed α}
    (taken : outcome.Takes more rest) (shorter : rest.length + least ≤ tokens.length) (errors : List Diagnostic) :
    (outcome.reportedAfter errors).Takes (least + more) tokens := by
  cases outcome with
  | exhausted => exact taken
  | failed later left => trivial
  | done value later left =>
    simp only [Parsed.Takes, Parsed.reportedAfter] at taken ⊢
    omega

namespace Parser

/-- On so many tokens or fewer the parser comes to an end, and takes at least a given number of them
unless it fails. -/
def EndsWithin {α : Type} (least : Nat) (parser : Parser α) (count : Nat) : Prop :=
  ∀ last tokens, tokens.length ≤ count → (parser last tokens).Takes least tokens

theorem takes_bind {α β : Type} {least more : Nat} {parser : Parser α} {next : α → Parser β} {last : Token}
    {tokens : List Token} (first : (parser last tokens).Takes least tokens)
    (rest : ∀ value left, left.length + least ≤ tokens.length → (next value last left).Takes more left) :
    ((parser >>= next) last tokens).Takes (least + more) tokens := by
  change (andThen parser next last tokens).Takes (least + more) tokens
  unfold andThen
  cases outcome : parser last tokens with
  | exhausted => rw [outcome] at first; exact first
  | failed errors left => trivial
  | done value errors left =>
    rw [outcome] at first
    exact (rest value left first).reportedAfter first errors

namespace EndsWithin

variable {α β : Type} {count least : Nat}

theorem succeed (value : α) : EndsWithin 0 (pure value) count :=
  fun _ _ _ => Nat.le_refl _

theorem weaken {parser : Parser α} (ends : EndsWithin least parser count) : EndsWithin 0 parser count :=
  fun last tokens few => (ends last tokens few).weaken

theorem bindBoth {more : Nat} {parser : Parser α} {next : α → Parser β} (first : EndsWithin least parser count)
    (rest : ∀ value, EndsWithin more (next value) count) : EndsWithin (least + more) (parser >>= next) count := by
  intro last tokens few
  refine takes_bind (first last tokens few) fun value left shorter => ?_
  exact rest value last left (by omega)

theorem bind {parser : Parser α} {next : α → Parser β} (first : EndsWithin 0 parser count)
    (rest : ∀ value, EndsWithin least (next value) count) : EndsWithin least (parser >>= next) count := by
  have both := bindBoth first rest
  rwa [Nat.zero_add] at both

theorem report (token : Token) (defect : Defect) : EndsWithin 0 (report token defect) count :=
  fun _ _ _ => Nat.le_refl _

theorem fail (token : Token) (defect : Defect) : EndsWithin least (Parser.fail token defect : Parser α) count :=
  fun _ _ _ => trivial

theorem peek : EndsWithin 0 peek count :=
  fun _ _ _ => Nat.le_refl _

theorem nextIs (kinds : List TokenKind) : EndsWithin 0 (nextIs kinds) count := by
  intro last tokens _
  cases tokens <;> exact Nat.le_refl _

/-- A token that is taken leaves one token less for what follows. -/
theorem bindAccept (kinds : List TokenKind) {next : Option Token → Parser β}
    (none : EndsWithin least (next none) count)
    (some : ∀ token fewer, count = fewer + 1 → EndsWithin (least - 1) (next (some token)) fewer) :
    EndsWithin least (accept kinds >>= next) count := by
  intro last tokens few
  change (andThen (accept kinds) next last tokens).Takes least tokens
  unfold andThen
  cases tokens with
  | nil => simpa only [accept, Parsed.reportedAfter_nil] using none last [] few
  | cons token rest =>
    rw [List.length_cons] at few
    cases found : kinds.contains token.kind with
    | false =>
      simpa only [accept, found, Bool.false_eq_true, if_false, Parsed.reportedAfter_nil] using
        none last (token :: rest) few
    | true =>
      simp only [accept, found, if_true, Parsed.reportedAfter_nil]
      have taken := some token (count - 1) (by omega) last rest (by omega)
      generalize next (.some token) last rest = outcome at taken ⊢
      cases outcome with
      | exhausted => exact taken
      | failed errors left => trivial
      | done value errors left =>
        simp only [Parsed.Takes, List.length_cons] at taken ⊢
        omega

theorem expect (kind : TokenKind) (defect : Defect) : EndsWithin 1 (expect kind defect) count :=
  bindAccept _ (bind peek fun _ => fail _ _) fun _ _ _ => succeed _

theorem bindExpect (kind : TokenKind) (defect : Defect) {next : Token → Parser β}
    (rest : ∀ token, EndsWithin least (next token) count) :
    EndsWithin least (Parser.expect kind defect >>= next) count :=
  bind (expect kind defect).weaken rest

theorem bindTest {test : Parser Bool} {yes no : Parser β} (first : EndsWithin 0 test count)
    (accepted : EndsWithin 0 yes count) (refused : EndsWithin 0 no count) :
    EndsWithin 0 (test >>= fun b => if b then yes else no) count := by
  apply bind first
  rintro (_ | _)
  · exact refused
  · exact accepted

theorem checkCount (number : Nat) (defect : Defect) : EndsWithin 0 (checkCount number defect) count := by
  apply bind peek
  intro token
  split
  · exact succeed ()
  · exact report token defect

theorem noExpression : EndsWithin 0 noExpression count := by
  apply bind peek
  intro token
  split
  · exact fail _ _
  · exact fail _ _

theorem increment (sign : Token) : EndsWithin 0 (increment sign) count :=
  bindExpect _ _ fun _ => succeed _

end EndsWithin

structure ExpressionsEnd (steps : Nat) : Prop where
  expression : ∀ count, 20 * count + 12 ≤ steps → EndsWithin 0 (expression steps) count
  ternary : ∀ count, 20 * count + 11 ≤ steps → EndsWithin 0 (ternary steps) count
  binary : ∀ (levels : List Level) count, levels.length ≤ 6 → 20 * count + levels.length + 4 ≤ steps →
    EndsWithin 0 (binary levels steps) count
  operands : ∀ level tighter left count, tighter.length ≤ 6 → 20 * count + 1 ≤ steps →
    EndsWithin 0 (operands level tighter left steps) count
  unary : ∀ count, 20 * count + 3 ≤ steps → EndsWithin 0 (unary steps) count
  calls : ∀ callee count, 20 * count + 1 ≤ steps → EndsWithin 0 (calls callee steps) count
  argumentList : ∀ count, 20 * count + 14 ≤ steps → EndsWithin 0 (argumentList steps) count
  furtherArguments : ∀ number count, 20 * count + 13 ≤ steps →
    EndsWithin 0 (furtherArguments number steps) count
  primary : ∀ count, 20 * count + 2 ≤ steps → EndsWithin 0 (primary steps) count

theorem expressionsEnd (steps : Nat) : ExpressionsEnd steps := by
  induction steps with
  | zero => constructor <;> intros <;> omega
  | succ steps ih =>
    constructor
    case expression =>
      intro count enough
      unfold Parser.expression
      refine .bind (ih.ternary count (by omega)) fun left => ?_
      refine .bindAccept _ (.succeed left) fun sign fewer taken => ?_
      refine .bind (ih.expression fewer (by omega)) fun value => ?_
      split
      · exact .succeed _
      · exact .bind (.report _ _) fun _ => .succeed _
    case ternary =>
      intro count enough
      unfold Parser.ternary
      refine .bind (ih.binary levels count (by decide) (by simp [levels]; omega)) fun condition => ?_
      refine .bindAccept _ (.succeed condition) fun _ fewer taken => ?_
      refine .bind (ih.ternary fewer (by omega)) fun first => ?_
      refine .bindExpect _ _ fun _ => ?_
      exact .bind (ih.ternary fewer (by omega)) fun second => .succeed _
    case binary =>
      intro levels count short enough
      cases levels with
      | nil => exact ih.unary count (by simp at enough; omega)
      | cons level tighter =>
        simp only [List.length_cons] at short enough
        exact .bind (ih.binary tighter count (by omega) (by omega)) fun left =>
          ih.operands level tighter left count (by omega) (by omega)
    case operands =>
      intro level tighter left count short enough
      refine .bindAccept _ (.succeed left) fun operator fewer taken => ?_
      refine .bind (ih.binary tighter fewer short (by omega)) fun right => ?_
      exact ih.operands level tighter _ fewer short (by omega)
    case unary =>
      intro count enough
      unfold Parser.unary
      refine .bindAccept _ ?_ fun sign fewer taken => ?_
      · exact .bind (ih.primary count (by omega)) fun callee => ih.calls callee count (by omega)
      · dsimp only
        split
        · exact .increment sign
        · exact .bind (ih.unary fewer (by omega)) fun _ => .succeed _
    case calls =>
      intro callee count enough
      refine .bindAccept _ (.succeed callee) fun _ fewer taken => ?_
      refine .bind (ih.argumentList fewer (by omega)) fun found => ?_
      exact .bindExpect _ _ fun paren => ih.calls _ fewer (by omega)
    case argumentList =>
      intro count enough
      exact .bindTest (.nextIs _) (.succeed []) (ih.furtherArguments 0 count (by omega))
    case furtherArguments =>
      intro number count enough
      refine .bind (.checkCount number _) fun _ => ?_
      refine .bind (ih.expression count (by omega)) fun argument => ?_
      refine .bindAccept _ (.succeed _) fun _ fewer taken => ?_
      exact .bind (ih.furtherArguments (number + 1) fewer (by omega)) fun _ => .succeed _
    case primary =>
      intro count enough
      unfold Parser.primary
      refine .bindAccept _ .noExpression fun token fewer taken => ?_
      dsimp only
      split
      · exact .succeed _
      · refine .bind (ih.expression fewer (by omega)) fun inner => ?_
        exact .bindExpect _ _ fun _ => .succeed _

namespace EndsWithin

variable {count : Nat} {value : Parser Expr} {body : Parser Stmt} {declarations : Parser (List Stmt)}

theorem skipClass (word : Token) : EndsWithin 0 (skipClass word) count := by
  refine bind (report _ _) fun _ => ?_
  refine bindAccept _ ?_ fun _ fewer taken => ?_
  all_goals
    refine bindAccept _ (succeed ()) fun _ _ _ => ?_
    intro last tokens _
    exact (dropBraces_suffix 1 tokens).length_le

theorem variableDeclaration (ends : EndsWithin 0 value count) : EndsWithin 0 (variableDeclaration value) count := by
  refine bindExpect _ _ fun name => ?_
  refine bind (bindAccept _ (succeed none) fun _ fewer taken => ?_) fun _ => ?_
  · exact bind (fun last tokens few => ends last tokens (by omega)) fun _ => succeed _
  · exact bindExpect _ _ fun _ => succeed _

/-- The semicolon at the end is taken in any case. -/
theorem expressionStatement (ends : EndsWithin 0 value count) : EndsWithin 1 (expressionStatement value) count := by
  refine bind ends fun _ => ?_
  exact bindBoth (expect _ _) fun _ => succeed _

theorem optionalBefore (closer : TokenKind) (ends : EndsWithin 0 value count) :
    EndsWithin 0 (optionalBefore closer value) count :=
  bindTest (nextIs _) (succeed none) (bind ends fun _ => succeed _)

theorem returnStatement (word : Token) (ends : EndsWithin 0 value count) :
    EndsWithin 0 (returnStatement word value) count :=
  bind (optionalBefore _ ends) fun _ => bindExpect _ _ fun _ => succeed _

theorem ifStatement (word : Token) (ends : EndsWithin 0 value count) (bodyEnds : EndsWithin 0 body count) :
    EndsWithin 0 (ifStatement word value body) count := by
  refine bindExpect _ _ fun _ => bind ends fun condition => bindExpect _ _ fun _ => bind bodyEnds fun _ => ?_
  refine bindAccept _ (succeed _) fun _ fewer taken => ?_
  exact bind (fun last tokens few => bodyEnds last tokens (by omega)) fun _ => succeed _

theorem whileStatement (word : Token) (ends : EndsWithin 0 value count) (bodyEnds : EndsWithin 0 body count) :
    EndsWithin 0 (whileStatement word value body) count :=
  bindExpect _ _ fun _ => bind ends fun _ => bindExpect _ _ fun _ => bind bodyEnds fun _ => succeed _

theorem forInitializer (ends : EndsWithin 0 value count) : EndsWithin 0 (forInitializer value) count := by
  refine bindAccept _ (bind (expressionStatement ends).weaken fun _ => succeed _) fun token fewer taken => ?_
  dsimp only
  split
  · exact bind (variableDeclaration fun last tokens few => ends last tokens (by omega)) fun _ => succeed _
  · exact succeed none

theorem forStatement (word : Token) (ends : EndsWithin 0 value count) (bodyEnds : EndsWithin 0 body count) :
    EndsWithin 0 (forStatement word value body) count := by
  refine bindExpect _ _ fun _ => bind (forInitializer ends) fun initial => ?_
  refine bind (optionalBefore _ ends) fun condition => bindExpect _ _ fun _ => ?_
  refine bind (optionalBefore _ ends) fun increment => bindExpect _ _ fun _ => ?_
  exact bind bodyEnds fun _ => succeed _

theorem furtherParameters (number steps : Nat) (enough : count + 1 ≤ steps) :
    EndsWithin 0 (furtherParameters number steps) count := by
  induction steps generalizing number count with
  | zero => omega
  | succ steps ih =>
    refine bind (checkCount number _) fun _ => bindExpect _ _ fun parameter => ?_
    refine bindAccept _ (succeed _) fun _ fewer taken => ?_
    exact bind (ih (number + 1) (by omega)) fun _ => succeed _

theorem closedBlock (ends : EndsWithin 0 declarations count) : EndsWithin 0 (closedBlock declarations) count :=
  bind ends fun _ => bindExpect _ _ fun _ => succeed _

theorem functionDeclaration (steps : Nat) (enough : count + 1 ≤ steps) (ends : EndsWithin 0 declarations count) :
    EndsWithin 0 (functionDeclaration steps declarations) count := by
  refine bindExpect _ _ fun name => bindExpect _ _ fun _ => ?_
  refine bind (bindTest (nextIs _) (succeed []) (furtherParameters 0 steps enough)) fun parameters => ?_
  refine bindExpect _ _ fun _ => bindExpect _ _ fun _ => ?_
  exact bind (closedBlock ends) fun _ => succeed _

theorem plainDeclaration (steps : Nat) (enough : count + 1 ≤ steps) (ends : EndsWithin 0 value count)
    (bodyEnds : EndsWithin 1 body count)
    (blockEnds : ∀ fewer, count = fewer + 1 → EndsWithin 0 declarations fewer) :
    EndsWithin 1 (plainDeclaration steps value body declarations) count := by
  refine bindAccept _ ?_ fun word fewer taken => ?_
  · exact bindBoth bodyEnds fun _ => succeed _
  · have fewerEnds : EndsWithin 0 value fewer := fun last tokens few => ends last tokens (by omega)
    dsimp only
    split
    · exact bind (variableDeclaration fewerEnds) fun _ => succeed _
    · exact bind (functionDeclaration steps (by omega) (blockEnds fewer taken)) fun _ => succeed _
    · exact bind (skipClass word) fun _ => succeed _

end EndsWithin

/-- A declaration that fails is dropped along with the token in front of it, unless that one closes
the block: so every declaration takes something. -/
theorem recover_takes (nested : Bool) {declaration : Parser (Option Stmt)} {count : Nat}
    (ends : EndsWithin 1 declaration count)
    (shorter : ∀ last tokens errors rest, declaration last tokens = .failed errors rest → rest <:+ tokens)
    {last token : Token} {rest : List Token} (few : (token :: rest).length ≤ count)
    (inside : closesBlock nested token = false) :
    (recover nested declaration last (token :: rest)).Takes 1 (token :: rest) := by
  have outcome := ends last (token :: rest) few
  unfold recover
  cases found : declaration last (token :: rest) with
  | done value errors left => rw [found] at outcome; exact outcome
  | exhausted => rw [found] at outcome; exact outcome
  | failed errors left =>
    have dropped : synchronize nested left <:+ rest := by
      rcases List.suffix_cons_iff.mp (shorter last _ errors left found) with rfl | within
      · rw [synchronize, inside]
        exact resume_suffix nested token rest
      · exact (synchronize_suffix nested left).trans within
    exact Nat.succ_le_succ dropped.length_le

theorem declarations_nil (nested : Bool) (steps : Nat) (last : Token) :
    declarations nested (steps + 1) last [] = .done [] [] [] := by
  cases nested <;> rfl

/-- Declarations go on until the end of the tokens or, in a block, until its closing brace. -/
theorem declarations_cons (nested : Bool) (steps : Nat) (last token : Token) (rest : List Token) :
    declarations nested (steps + 1) last (token :: rest) =
      if closesBlock nested token then .done [] [] (token :: rest)
      else (do
        let first ← declaration nested steps
        let others ← declarations nested steps
        return first.toList ++ others : Parser (List Stmt)) last (token :: rest) := by
  have opens : ∀ {α : Type} (next : Bool → Parser α),
      (declarationsEnd nested >>= next) last (token :: rest) =
        next (closesBlock nested token) last (token :: rest) := by
    intro α next
    change andThen (declarationsEnd nested) next last (token :: rest) = _
    cases nested
    · simp [andThen, declarationsEnd, atEnd, closesBlock]
    · have test : declarationsEnd true last (token :: rest) =
          .done (closesBlock true token) [] (token :: rest) := by
        change Parsed.done (token.kind == .rightBrace || false) [] (token :: rest) = _
        rw [Bool.or_false]
        rfl
      simp [andThen, test]
  rw [declarations, opens]
  cases closesBlock nested token <;> rfl

structure StatementsEnd (steps : Nat) : Prop where
  statement : ∀ count, 20 * count + 14 ≤ steps → EndsWithin 1 (statement steps) count
  declaration : ∀ nested count last token rest, 20 * count + 15 ≤ steps → (token :: rest).length ≤ count →
    closesBlock nested token = false → (declaration nested steps last (token :: rest)).Takes 1 (token :: rest)
  declarations : ∀ nested count, 20 * count + 16 ≤ steps → EndsWithin 0 (declarations nested steps) count

/-- A declaration that fails says why, and leaves an end of the tokens. -/
theorem plainDeclaration_failed (steps : Nat) (last : Token) (tokens : List Token) (errors : List Diagnostic)
    (rest : List Token)
    (failed : plainDeclaration steps (expression steps) (statement steps) (declarations true steps) last tokens =
      .failed errors rest) : errors ≠ [] ∧ rest <:+ tokens := by
  have lawful := relocation_lawful id
  have alike := lawful.plainDeclaration (expressionsAlike lawful (Nat.le_refl steps)).expression
    (statementsAlike lawful (Nat.le_refl steps)).statement
    ((statementsAlike lawful (Nat.le_refl steps)).declarations true) (Nat.le_refl steps) last tokens
  rw [failed] at alike
  exact ⟨alike.1, alike.2.1⟩

theorem statementsEnd (steps : Nat) : StatementsEnd steps := by
  induction steps with
  | zero => constructor <;> intros <;> omega
  | succ steps ih =>
    have values := fun count enough => (expressionsEnd steps).expression count enough
    constructor
    case statement =>
      intro count enough
      unfold Parser.statement
      refine .bindAccept _ (.expressionStatement (values count (by omega))) fun word fewer taken => ?_
      have ends := values fewer (by omega)
      have bodyEnds := (ih.statement fewer (by omega)).weaken
      dsimp only
      split
      · exact .forStatement word ends bodyEnds
      · exact .ifStatement word ends bodyEnds
      · exact .whileStatement word ends bodyEnds
      · exact .bindExpect _ _ fun _ => .succeed _
      · exact .bindExpect _ _ fun _ => .succeed _
      · exact .returnStatement word ends
      · exact .bind (.closedBlock (ih.declarations true fewer (by omega))) fun _ => .succeed _
    case declaration =>
      intro nested count last token rest enough few inside
      have ends := EndsWithin.plainDeclaration steps (by omega) (values count (by omega))
        (ih.statement count (by omega)) fun fewer taken => ih.declarations true fewer (by omega)
      have shorter := fun last tokens errors rest failed =>
        (plainDeclaration_failed steps last tokens errors rest failed).2
      exact recover_takes nested ends shorter few inside
    case declarations =>
      intro nested count enough last tokens few
      cases tokens with
      | nil =>
        rw [declarations_nil]
        exact Nat.le_refl _
      | cons token rest =>
        rw [declarations_cons]
        cases inside : closesBlock nested token with
        | true => exact Nat.le_refl _
        | false =>
          have first := ih.declaration nested count last token rest (by omega) few inside
          refine (takes_bind first fun stmt left shorter => ?_ : Parsed.Takes (1 + 0) _ _).weaken
          simp only [List.length_cons] at shorter few
          refine EndsWithin.bind (ih.declarations nested (count - 1) (by omega)) (fun _ => .succeed _) last left ?_
          omega

end Parser
end Treewalk
