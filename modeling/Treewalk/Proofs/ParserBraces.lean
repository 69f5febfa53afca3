import Treewalk.Proofs.ParserReading

/-! What parsers do with braces. A parser closes the braces that it opens, and no others, unless an opening
brace is dropped: recovery from an error stops in front of a closing brace, but not in front of an
opening one. Errors are at tokens that have been taken, or at the next one. -/

namespace Treewalk

/-- At such an error the declaration is given up, and the parser has to recover. -/
def Defect.givesUp : Defect → Bool
  | tooManyParameters | tooManyArguments | invalidTarget | classDeclaration => false
  | _ => true

def Diagnostic.IsAmong (tokens : List Token) (error : Diagnostic) : Prop :=
  error.lexical = false ∧ error.token ∈ tokens

theorem Diagnostic.IsAmong.more {tokens others : List Token} {error : Diagnostic} (among : error.IsAmong tokens)
    (more : tokens ⊆ others) : error.IsAmong others :=
  ⟨among.1, more among.2⟩

namespace Parser

def openings (tokens : List Token) : Nat :=
  tokens.countP (·.kind == .leftBrace)

def closings (tokens : List Token) : Nat :=
  tokens.countP (·.kind == .rightBrace)

theorem openings_append (first second : List Token) : openings (first ++ second) = openings first + openings second :=
  List.countP_append

theorem closings_append (first second : List Token) : closings (first ++ second) = closings first + closings second :=
  List.countP_append

theorem openings_singleton (token : Token) : openings [token] = if token.kind = .leftBrace then 1 else 0 := by
  simp [openings, List.countP_cons]

theorem closings_singleton (token : Token) : closings [token] = if token.kind = .rightBrace then 1 else 0 := by
  simp [closings, List.countP_cons]

theorem closings_inner {token : Token} (inner : token.kind ≠ .rightBrace) (tokens : List Token) :
    closings (token :: tokens) = closings tokens := by
  rw [← List.singleton_append, closings_append, closings_singleton, if_neg inner, Nat.zero_add]

/-- No more braces are closed than are open, when `depth` of them were open before. -/
def Rises (depth : Nat) (tokens : List Token) : Prop :=
  ∀ front, front <+: tokens → closings front ≤ depth + openings front

theorem Rises.nil (depth : Nat) : Rises depth [] := by
  intro front within
  obtain rfl := List.prefix_nil.mp within
  exact Nat.zero_le _

theorem Rises.deeper {depth more : Nat} {tokens : List Token} (rises : Rises depth tokens) (least : depth ≤ more) :
    Rises more tokens := by
  intro front within
  have part := rises front within
  omega

theorem Rises.append {depth inner : Nat} {first second : List Token} (begins : Rises depth first) (goesOn : Rises inner second)
    (level : closings first + inner ≤ depth + openings first) : Rises depth (first ++ second) := by
  intro front within
  rcases List.prefix_or_prefix_of_prefix within (List.prefix_append first second) with early | ⟨late, rfl⟩
  · exact begins front early
  · have part := goesOn late ((List.prefix_append_right_inj first).mp within)
    rw [closings_append, openings_append]
    omega

theorem Rises.cons {depth inner : Nat} {token : Token} {tokens : List Token} (rises : Rises inner tokens)
    (level : closings [token] + inner ≤ depth + openings [token]) : Rises depth (token :: tokens) := by
  have first : Rises depth [token] := by
    intro front within
    rcases List.prefix_cons_iff.mp within with rfl | ⟨_, rfl, none⟩
    · exact Nat.zero_le _
    · obtain rfl := List.prefix_nil.mp none
      omega
  exact first.append rises level

/-- Recovery from an error at the first of these tokens drops an opening brace. -/
def DropsBrace (tokens : List Token) : Prop :=
  openings (synchronize true tokens) < openings tokens

instance (tokens : List Token) : Decidable (DropsBrace tokens) :=
  inferInstanceAs (Decidable (_ < _))

/-- An opening brace is dropped behind one of the errors. -/
def Loses (errors : List Diagnostic) (taken rest : List Token) : Prop :=
  ∃ error ∈ errors, error.defect.givesUp = true ∧
    ∃ back, back <:+ taken ∧ back.head? = some error.token ∧ DropsBrace (back ++ rest)

section

variable {known taken more rest tokens : List Token} {errors others : List Diagnostic} {depth : Nat} {last : Token}

theorem Loses.behind (front : List Token) (loses : Loses errors taken rest) : Loses errors (front ++ taken) rest := by
  obtain ⟨error, member, givesUp, back, within, starts, drops⟩ := loses
  exact ⟨error, member, givesUp, back, within.trans (List.suffix_append front taken), starts, drops⟩

theorem Loses.goesOn (others : List Diagnostic) (loses : Loses errors taken (more ++ rest)) :
    Loses (errors ++ others) (taken ++ more) rest := by
  obtain ⟨error, member, givesUp, back, ⟨front, same⟩, starts, drops⟩ := loses
  refine ⟨error, List.mem_append_left _ member, givesUp, back ++ more, ⟨front, ?_⟩, ?_, ?_⟩
  · rw [← List.append_assoc, same]
  · rw [List.head?_append, starts, Option.some_or]
  · rwa [List.append_assoc]

theorem Loses.after (earlier : List Diagnostic) (loses : Loses errors taken rest) : Loses (earlier ++ errors) taken rest := by
  obtain ⟨error, member, lost⟩ := loses
  exact ⟨error, List.mem_append_right _ member, lost⟩

/-- What a parser has taken when `depth` braces are open that it has to close: it closes no others, its
errors are at tokens that it has seen, and it has closed its braces unless one was lost. -/
structure Passes (known : List Token) (depth : Nat) (last : Token) (tokens taken rest : List Token)
    (errors : List Diagnostic) : Prop where
  parts : tokens = taken ++ rest
  rises : Rises depth taken
  located : ∀ error ∈ errors, error.IsAmong (known ++ taken ++ [rest.headD last])
  level : rest = [] ∨ Loses errors taken rest ∨ closings taken = depth + openings taken

def PassesTo {α : Type} (known : List Token) (depth : Nat) (last : Token) (tokens : List Token) : Parsed α → Prop
  | .done _ errors rest => ∃ taken, Passes known depth last tokens taken rest errors
  | .failed errors rest => (∃ taken, Passes known depth last tokens taken rest errors) ∧
      ∃ error ∈ errors, error.defect.givesUp = true ∧ error.token = rest.headD last
  | .exhausted => True

/-- The parser closes so many braces that were open before, and is level otherwise. -/
def Levels {α : Type} (known : List Token) (depth : Nat) (parser : Parser α) : Prop :=
  ∀ last tokens, PassesTo known depth last tokens (parser last tokens)

theorem Passes.nothing (located : ∀ error ∈ errors, error.IsAmong (known ++ [tokens.headD last])) :
    Passes known 0 last tokens [] tokens errors where
  parts := rfl
  rises := .nil 0
  located := by simpa using located
  level := .inr (.inr rfl)

/-- The error of a parser that gives up, or goes on, at the next token. -/
theorem Passes.atNext (known : List Token) (last : Token) (tokens : List Token) (defect : Defect) :
    Passes known 0 last tokens [] tokens [.grammar (tokens.headD last) defect] := by
  refine .nothing fun error member => ?_
  obtain rfl := List.mem_singleton.mp member
  exact ⟨rfl, List.mem_append_right _ (List.mem_singleton_self _)⟩

theorem headD_mem_append (taken rest : List Token) (last : Token) :
    (taken ++ rest).headD last ∈ taken ++ [rest.headD last] := by
  cases taken <;> simp

theorem seen_subset (known taken more rest : List Token) (last : Token) :
    known ++ taken ++ [(more ++ rest).headD last] ⊆ known ++ (taken ++ more) ++ [rest.headD last] := by
  have next := headD_mem_append more rest last
  intro token seen
  simp only [List.mem_append, List.mem_singleton] at seen next ⊢
  rcases seen with (known | taken) | rfl
  · exact .inl (.inl known)
  · exact .inl (.inr (.inl taken))
  · exact next.imp (fun more => .inr (.inr more)) id

theorem Passes.append {behind : List Token} (first : Passes known depth last tokens taken behind errors)
    (second : Passes known 0 last behind more rest others) :
    Passes known depth last tokens (taken ++ more) rest (errors ++ others) := by
  have behind_eq := second.parts
  constructor
  · rw [first.parts, behind_eq, List.append_assoc]
  · exact first.rises.append second.rises (first.rises taken (List.prefix_refl taken))
  · intro error member
    rcases List.mem_append.mp member with early | late
    · have seen := first.located error early
      rw [behind_eq] at seen
      exact seen.more (seen_subset known taken more rest last)
    · refine (second.located error late).more ?_
      intro token seen
      simp only [List.mem_append] at seen ⊢
      tauto
  · rcases first.level with ended | lost | level
    · rw [behind_eq] at ended
      exact .inl (List.append_eq_nil_iff.mp ended).2
    · rw [behind_eq] at lost
      exact .inr (.inl (lost.goesOn others))
    · rcases second.level with ended | lost | levels
      · exact .inl ended
      · exact .inr (.inl ((lost.behind taken).after errors))
      · refine .inr (.inr ?_)
        rw [closings_append, openings_append]
        omega

theorem Passes.sameErrors (passes : Passes known depth last tokens taken rest errors)
    (same : ∀ error, error ∈ others ↔ error ∈ errors) : Passes known depth last tokens taken rest others where
  parts := passes.parts
  rises := passes.rises
  located error member := passes.located error ((same error).mp member)
  level := by
    rcases passes.level with ended | ⟨error, member, lost⟩ | level
    · exact .inl ended
    · exact .inr (.inl ⟨error, (same error).mpr member, lost⟩)
    · exact .inr (.inr level)

/-- What is left is an end of the tokens, and errors are at one of them or at the end. -/
theorem Passes.within (passes : Passes [] depth last tokens taken rest errors) :
    rest <:+ tokens ∧ ∀ error ∈ errors, error.IsAmong (tokens ++ [last]) := by
  refine ⟨⟨taken, passes.parts.symm⟩, fun error member => ?_⟩
  have seen := seen_subset [] taken rest [] last
  rw [List.append_nil] at seen
  rw [passes.parts]
  exact (passes.located error member).more seen

/-- A token is taken in front of what a parser takes; an opening brace is one more to close. -/
theorem Passes.cons {token : Token} (inner : token.kind ≠ .rightBrace)
    (passes : Passes (token :: known) (depth + openings [token]) last tokens taken rest errors) :
    Passes known depth last (token :: tokens) (token :: taken) rest errors := by
  have plain : closings [token] = 0 := closings_inner inner []
  constructor
  · rw [passes.parts, List.cons_append]
  · exact passes.rises.cons (by omega)
  · intro error member
    refine (passes.located error member).more ?_
    intro other seen
    simp only [List.mem_append, List.mem_cons, List.cons_append] at seen ⊢
    tauto
  · rcases passes.level with ended | lost | level
    · exact .inl ended
    · exact .inr (.inl (lost.behind [token]))
    · refine .inr (.inr ?_)
      rw [← List.singleton_append, closings_append, openings_append]
      omega

end

namespace Levels

variable {α β : Type} {known : List Token} {depth : Nat}

theorem outOfSteps : Levels known depth (Parser.outOfSteps : Parser α) :=
  fun _ _ => trivial

theorem succeed (value : α) : Levels known 0 (pure value) :=
  fun _ _ => ⟨[], .nothing fun _ none => nomatch none⟩

theorem bind {parser : Parser α} {next : α → Parser β} (first : Levels known depth parser)
    (rest : ∀ value, Levels known 0 (next value)) : Levels known depth (parser >>= next) := by
  intro last tokens
  have begins := first last tokens
  change PassesTo known depth last tokens (andThen parser next last tokens)
  unfold andThen
  cases outcome : parser last tokens with
  | exhausted => trivial
  | failed errors left =>
    rw [outcome] at begins
    exact begins
  | done value errors left =>
    rw [outcome] at begins
    obtain ⟨taken, passes⟩ := begins
    have goesOn := rest value last left
    dsimp only
    cases following : next value last left with
    | exhausted => trivial
    | done result others behind =>
      rw [following] at goesOn
      obtain ⟨more, passesOn⟩ := goesOn
      exact ⟨taken ++ more, passes.append passesOn⟩
    | failed others behind =>
      rw [following] at goesOn
      obtain ⟨⟨more, passesOn⟩, error, member, givesUp⟩ := goesOn
      exact ⟨⟨taken ++ more, passes.append passesOn⟩, error, List.mem_append_right _ member, givesUp⟩

/-- A token that is taken is known from there on. -/
theorem bindBrace (kinds : List TokenKind) {next : Option Token → Parser β} (none : Levels known depth (next none))
    (some : ∀ token, token.kind ∈ kinds → token.kind ≠ .rightBrace ∧
      Levels (token :: known) (depth + openings [token]) (next (some token))) :
    Levels known depth (accept kinds >>= next) := by
  intro last tokens
  change PassesTo known depth last tokens (andThen (accept kinds) next last tokens)
  unfold andThen
  cases tokens with
  | nil => simpa only [accept, Parsed.reportedAfter_nil] using none last []
  | cons token rest =>
    cases found : kinds.contains token.kind with
    | false =>
      simpa only [accept, found, Bool.false_eq_true, if_false, Parsed.reportedAfter_nil] using none last (token :: rest)
    | true =>
      simp only [accept, found, if_true, Parsed.reportedAfter_nil]
      obtain ⟨inner, levels⟩ := some token (List.contains_iff_mem.mp found)
      have passes := levels last rest
      cases outcome : next (.some token) last rest with
      | exhausted => trivial
      | done value errors left =>
        rw [outcome] at passes
        obtain ⟨taken, passes⟩ := passes
        exact ⟨token :: taken, passes.cons inner⟩
      | failed errors left =>
        rw [outcome] at passes
        obtain ⟨⟨taken, passes⟩, givesUp⟩ := passes
        exact ⟨⟨token :: taken, passes.cons inner⟩, givesUp⟩

theorem bindAccept {kinds : List TokenKind} (plain : .leftBrace ∉ kinds ∧ .rightBrace ∉ kinds)
    {next : Option Token → Parser β} (none : Levels known depth (next none))
    (some : ∀ token, Levels (token :: known) depth (next (some token))) :
    Levels known depth (accept kinds >>= next) := by
  refine bindBrace kinds none fun token member => ?_
  have left : token.kind ≠ .leftBrace := fun same => plain.1 (same ▸ member)
  rw [openings_singleton, if_neg left]
  exact ⟨fun same => plain.2 (same ▸ member), some token⟩

theorem nextIs (kinds : List TokenKind) : Levels known 0 (nextIs kinds) := by
  intro last tokens
  cases tokens <;> exact ⟨[], .nothing fun _ none => nomatch none⟩

theorem report {token : Token} (defect : Defect) (seen : token ∈ known) : Levels known 0 (report token defect) := by
  intro last tokens
  refine ⟨[], .nothing fun error member => ?_⟩
  obtain rfl := List.mem_singleton.mp member
  exact ⟨rfl, List.mem_append_left _ seen⟩

/-- The parser gives up at the next token. -/
theorem peekFail (defect : Token → Defect) (givesUp : ∀ token, (defect token).givesUp = true) :
    Levels known 0 (peek >>= fun token => fail token (defect token) : Parser α) := by
  intro last tokens
  exact ⟨⟨[], .atNext known last tokens _⟩, _, List.mem_singleton_self _, givesUp _, rfl⟩

theorem expect (kind : TokenKind) {defect : Defect} (plain : kind ≠ .leftBrace ∧ kind ≠ .rightBrace)
    (givesUp : defect.givesUp = true) : Levels known 0 (expect kind defect) := by
  refine bindAccept ?_ (peekFail _ fun _ => givesUp) fun _ => succeed _
  simp [plain.1.symm, plain.2.symm]

theorem bindTest {test : Parser Bool} {yes no : Parser β} (first : Levels known 0 test)
    (accepted : Levels known 0 yes) (refused : Levels known 0 no) :
    Levels known 0 (test >>= fun b => if b then yes else no) := by
  apply bind first
  rintro (_ | _)
  · exact refused
  · exact accepted

theorem checkCount (count : Nat) (defect : Defect) : Levels known 0 (checkCount count defect) := by
  intro last tokens
  unfold Parser.checkCount
  change PassesTo known 0 last tokens (andThen peek _ last tokens)
  unfold andThen peek
  dsimp only
  split
  · exact ⟨[], .nothing fun _ none => nomatch none⟩
  · exact ⟨[], .atNext known last tokens defect⟩

theorem noExpression : Levels known 0 noExpression := by
  have same : Parser.noExpression = (peek >>= fun token => fail token
      (if token.kind == .thisWord || token.kind == .superWord then .unsupportedWord token.lexeme else .expected .expression)) := by
    unfold Parser.noExpression
    congr
    funext token
    split <;> rfl
  rw [same]
  refine peekFail _ fun token => ?_
  split <;> rfl

theorem increment (sign : Token) : Levels known 0 (increment sign) :=
  bind (expect _ (by decide) rfl) fun _ => succeed _

end Levels

structure ExpressionsLevel (steps : Nat) : Prop where
  expression : ∀ {known}, Levels known 0 (expression steps)
  ternary : ∀ {known}, Levels known 0 (ternary steps)
  binary : ∀ {known} (levels : List Level), (∀ each ∈ levels, .leftBrace ∉ each.operators ∧ .rightBrace ∉ each.operators) →
    Levels known 0 (binary levels steps)
  operands : ∀ {known} level tighter left,
    (∀ each ∈ level :: tighter, .leftBrace ∉ each.operators ∧ .rightBrace ∉ each.operators) →
    Levels known 0 (operands level tighter left steps)
  unary : ∀ {known}, Levels known 0 (unary steps)
  calls : ∀ {known} callee, Levels known 0 (calls callee steps)
  argumentList : ∀ {known}, Levels known 0 (argumentList steps)
  furtherArguments : ∀ {known} count, Levels known 0 (furtherArguments count steps)
  primary : ∀ {known}, Levels known 0 (primary steps)

theorem expressionsLevel (steps : Nat) : ExpressionsLevel steps := by
  induction steps with
  | zero =>
    constructor
    case binary =>
      intro known levels _
      cases levels <;> exact .outOfSteps
    all_goals intros; exact .outOfSteps
  | succ steps ih =>
    constructor
    case expression =>
      intro known
      unfold Parser.expression
      refine .bind ih.ternary fun left => ?_
      refine .bindAccept (by decide) (.succeed left) fun sign => ?_
      refine .bind ih.expression fun value => ?_
      split
      · exact .succeed _
      · exact .bind (.report _ List.mem_cons_self) fun _ => .succeed _
    case ternary =>
      intro known
      unfold Parser.ternary
      refine .bind (ih.binary levels (by decide)) fun condition => ?_
      refine .bindAccept (by decide) (.succeed condition) fun _ => ?_
      refine .bind ih.ternary fun first => ?_
      refine .bind (.expect _ (by decide) rfl) fun _ => ?_
      exact .bind ih.ternary fun second => .succeed _
    case binary =>
      intro known levels plain
      cases levels with
      | nil => exact ih.unary
      | cons level tighter =>
        refine .bind (ih.binary tighter (List.forall_mem_cons.mp plain).2) fun left => ?_
        exact ih.operands level tighter left plain
    case operands =>
      intro known level tighter left plain
      obtain ⟨here, tight⟩ := List.forall_mem_cons.mp plain
      refine .bindAccept here (.succeed left) fun operator => ?_
      exact .bind (ih.binary tighter tight) fun right => ih.operands level tighter _ plain
    case unary =>
      intro known
      unfold Parser.unary
      refine .bindAccept (by decide) ?_ fun sign => ?_
      · exact .bind ih.primary fun callee => ih.calls callee
      · dsimp only
        split
        · exact .increment sign
        · exact .bind ih.unary fun _ => .succeed _
    case calls =>
      intro known callee
      refine .bindAccept (by decide) (.succeed callee) fun _ => ?_
      refine .bind ih.argumentList fun found => ?_
      exact .bind (.expect _ (by decide) rfl) fun paren => ih.calls _
    case argumentList =>
      intro known
      exact .bindTest (.nextIs _) (.succeed []) (ih.furtherArguments 0)
    case furtherArguments =>
      intro known count
      refine .bind (.checkCount count _) fun _ => ?_
      refine .bind ih.expression fun argument => ?_
      refine .bindAccept (by decide) (.succeed _) fun _ => ?_
      exact .bind (ih.furtherArguments (count + 1)) fun _ => .succeed _
    case primary =>
      intro known
      unfold Parser.primary
      refine .bindAccept (by decide) .noExpression fun token => ?_
      dsimp only
      split
      · exact .succeed _
      · refine .bind ih.expression fun inner => ?_
        exact .bind (.expect _ (by decide) rfl) fun _ => .succeed _

/-- Skipping a class closes the brace that it opened. -/
theorem dropBraces_closes (depth : Nat) (tokens : List Token) : ∃ taken, tokens = taken ++ dropBraces depth tokens ∧
    Rises depth taken ∧ (dropBraces depth tokens = [] ∨ closings taken = depth + openings taken) := by
  have step : ∀ {token rest left inner depth}, closings [token] + inner = depth + openings [token] →
      (∃ taken, rest = taken ++ left ∧ Rises inner taken ∧ (left = [] ∨ closings taken = inner + openings taken)) →
      ∃ taken, token :: rest = taken ++ left ∧ Rises depth taken ∧ (left = [] ∨ closings taken = depth + openings taken) := by
    rintro token rest left inner depth weight ⟨taken, rfl, rises, level⟩
    refine ⟨token :: taken, rfl, rises.cons (by omega), level.imp id fun level => ?_⟩
    rw [← List.singleton_append, closings_append, openings_append]
    omega
  fun_induction dropBraces depth tokens with
  | case1 tokens => exact ⟨[], rfl, .nil 0, .inr rfl⟩
  | case2 depth => exact ⟨[], rfl, .nil _, .inl rfl⟩
  | case3 depth token rest kind ih =>
    refine step ?_ ih
    simp [closings_singleton, openings_singleton, beq_iff_eq.mp kind]
  | case4 depth token rest _ kind ih =>
    refine step ?_ ih
    simp [closings_singleton, openings_singleton, beq_iff_eq.mp kind, Nat.add_comm]
  | case5 depth token rest left right ih =>
    refine step ?_ ih
    rw [closings_singleton, openings_singleton, if_neg (by simpa using right), if_neg (by simpa using left), Nat.zero_add,
      Nat.add_zero]

theorem resume_closings (previous : Token) (tokens : List Token) :
    ∃ dropped, tokens = dropped ++ resume true previous tokens ∧ closings dropped = 0 := by
  induction tokens generalizing previous with
  | nil => exact ⟨[], rfl, rfl⟩
  | cons token rest ih =>
    rw [resume]
    split
    · exact ⟨[], rfl, rfl⟩
    next goesOn =>
      obtain ⟨dropped, parts, none⟩ := ih token
      refine ⟨token :: dropped, congrArg (token :: ·) parts, (closings_inner ?_ dropped).trans none⟩
      intro same
      simp [closesBlock, same] at goesOn

/-- Recovery inside a block stops in front of a closing brace. -/
theorem synchronize_closings (tokens : List Token) :
    ∃ dropped, tokens = dropped ++ synchronize true tokens ∧ closings dropped = 0 := by
  cases tokens with
  | nil => exact ⟨[], rfl, rfl⟩
  | cons token rest =>
    rw [synchronize]
    split
    · exact ⟨[], rfl, rfl⟩
    next goesOn =>
      obtain ⟨dropped, parts, none⟩ := resume_closings token rest
      refine ⟨token :: dropped, congrArg (token :: ·) parts, (closings_inner ?_ dropped).trans none⟩
      intro same
      simp [closesBlock, same] at goesOn

theorem rises_of_closings {tokens : List Token} (none : closings tokens = 0) : Rises 0 tokens := by
  intro front within
  have part := List.Sublist.countP_le (p := fun token : Token => token.kind == .rightBrace) within.sublist
  unfold closings at none ⊢
  omega

namespace Levels

variable {known : List Token} {value : Parser Expr} {body : Parser Stmt} {declared : Parser (List Stmt)}

theorem skipBraces : Levels known 1 skipBraces := by
  intro last tokens
  obtain ⟨taken, parts, rises, level⟩ := dropBraces_closes 1 tokens
  exact ⟨taken, parts, rises, fun _ none => (nomatch none), level.imp id .inr⟩

/-- An opening brace that is dropped is lost. -/
theorem recover {declaration : Parser (Option Stmt)} (levels : Levels known 0 declaration) :
    Levels known 0 (recover true declaration) := by
  intro last tokens
  have passes := levels last tokens
  unfold Parser.recover
  cases outcome : declaration last tokens with
  | exhausted => trivial
  | done found errors rest =>
    rw [outcome] at passes
    exact passes
  | failed errors rest =>
    rw [outcome] at passes
    obtain ⟨⟨taken, passes⟩, error, member, givesUp, here⟩ := passes
    obtain ⟨dropped, parts, none⟩ := synchronize_closings rest
    have drops : Passes known 0 last rest dropped (synchronize true rest) [error] := by
      refine ⟨parts, rises_of_closings none, ?_, ?_⟩
      · intro other single
        obtain rfl := List.mem_singleton.mp single
        have next := headD_mem_append dropped (synchronize true rest) last
        rw [← parts, ← here] at next
        rw [List.append_assoc]
        exact ⟨(passes.located other member).1, List.mem_append_right _ next⟩
      · have count : openings rest = openings dropped + openings (synchronize true rest) := by
          rw [← openings_append, ← parts]
        by_cases lost : openings dropped = 0
        · exact .inr (.inr (by omega))
        · -- Something is dropped, so the error is at the first token that is.
          refine .inr (.inl ⟨error, List.mem_singleton_self _, givesUp, dropped, List.suffix_refl _, ?_, ?_⟩)
          · cases dropped with
            | nil => exact absurd rfl lost
            | cons first dropped =>
              rw [parts] at here
              simpa using here.symm
          · rw [← parts, DropsBrace]
            omega
    refine ⟨taken ++ dropped, (passes.append drops).sameErrors fun other => ?_⟩
    rw [List.mem_append, List.mem_singleton]
    exact (or_iff_left_of_imp fun same => same ▸ member).symm

/-- A block ends at a closing brace. Without one it fails, but then nothing is left. -/
theorem closedBlock (stops : ∀ last tokens, declared last tokens = .exhausted ∨ ∃ stmts errors rest,
      declared last tokens = .done stmts errors rest ∧ StopsDeclarations true rest)
    (levels : Levels known 0 declared) : Levels known 1 (closedBlock declared) := by
  intro last tokens
  have passes := levels last tokens
  change PassesTo known 1 last tokens (andThen declared _ last tokens)
  unfold andThen
  rcases stops last tokens with none | ⟨stmts, errors, rest, read, rfl | ⟨_, brace, left, rfl, kind⟩⟩
  · rw [none]
    trivial
  · rw [read] at passes ⊢
    obtain ⟨taken, passes⟩ := passes
    have whole := passes.append (.atNext known last [] (.expected .braceAfterBlock))
    refine ⟨⟨_, whole.parts, whole.rises.deeper (Nat.zero_le 1), whole.located, .inl rfl⟩, ?_⟩
    exact ⟨_, List.mem_append_right _ (List.mem_singleton_self _), rfl, rfl⟩
  · rw [read] at passes ⊢
    obtain ⟨taken, passes⟩ := passes
    rw [List.mem_singleton] at kind
    have ends : (do let _ ← Parser.expect .rightBrace (.expected .braceAfterBlock); return stmts : Parser (List Stmt)) last
        (brace :: left) = .done stmts [] left := by
      simp [Parser.expect, accept, kind, Bind.bind, andThen, pure, Parser.succeed, Parsed.reportedAfter]
    have weight : closings [brace] = 1 ∧ openings [brace] = 0 := by
      simp [closings_singleton, openings_singleton, kind]
    have whole := passes.rises taken (List.prefix_refl taken)
    dsimp only
    rw [ends]
    refine ⟨taken ++ [brace], by simp [passes.parts], ?_, ?_, ?_⟩
    · refine (passes.rises.deeper (Nat.zero_le 1)).append (.cons (.nil 0) ?_) (?_ : _ + 1 ≤ _)
      · omega
      · omega
    · intro error member
      rw [List.append_nil] at member
      have seen := passes.located error member
      rw [← List.append_assoc]
      exact seen.more (List.subset_append_left _ _)
    · rcases passes.level with impossible | lost | level
      · cases impossible
      · exact .inr (.inl (Loses.goesOn [] lost))
      · refine .inr (.inr ?_)
        rw [closings_append, openings_append]
        omega

theorem skipClass {word : Token} (seen : word ∈ known) : Levels known 0 (skipClass word) := by
  refine bind (report _ seen) fun _ => ?_
  refine bindAccept (by decide) ?_ fun _ => ?_
  all_goals
    refine bindBrace _ (succeed ()) fun brace kind => ?_
    have opens := List.mem_singleton.mp kind
    rw [openings_singleton, if_pos opens]
    exact ⟨by simp [opens], skipBraces⟩

theorem initializer (values : ∀ {known}, Levels known 0 value) : Levels known 0 (initializer value) :=
  bindAccept (by decide) (succeed none) fun _ => bind values fun _ => succeed _

theorem variableDeclaration (values : ∀ {known}, Levels known 0 value) : Levels known 0 (variableDeclaration value) := by
  refine bind (expect _ (by decide) rfl) fun name => bind (initializer values) fun _ => ?_
  exact bind (expect _ (by decide) rfl) fun _ => succeed _

theorem expressionStatement (values : ∀ {known}, Levels known 0 value) : Levels known 0 (expressionStatement value) :=
  bind values fun _ => bind (expect _ (by decide) rfl) fun _ => succeed _

theorem optionalBefore (closer : TokenKind) (values : ∀ {known}, Levels known 0 value) :
    Levels known 0 (optionalBefore closer value) :=
  bindTest (nextIs _) (succeed none) (bind values fun _ => succeed _)

theorem returnStatement (word : Token) (values : ∀ {known}, Levels known 0 value) :
    Levels known 0 (returnStatement word value) :=
  bind (optionalBefore _ values) fun _ => bind (expect _ (by decide) rfl) fun _ => succeed _

theorem ifStatement (word : Token) (values : ∀ {known}, Levels known 0 value) (bodies : ∀ {known}, Levels known 0 body) :
    Levels known 0 (ifStatement word value body) := by
  refine bind (expect _ (by decide) rfl) fun _ => bind values fun condition => ?_
  refine bind (expect _ (by decide) rfl) fun _ => bind bodies fun consequence => ?_
  exact bindAccept (by decide) (succeed _) fun _ => bind bodies fun _ => succeed _

theorem whileStatement (word : Token) (values : ∀ {known}, Levels known 0 value) (bodies : ∀ {known}, Levels known 0 body) :
    Levels known 0 (whileStatement word value body) := by
  refine bind (expect _ (by decide) rfl) fun _ => bind values fun condition => ?_
  exact bind (expect _ (by decide) rfl) fun _ => bind bodies fun _ => succeed _

theorem forInitializer (values : ∀ {known}, Levels known 0 value) : Levels known 0 (forInitializer value) := by
  refine bindAccept (by decide) (bind (expressionStatement values) fun _ => succeed _) fun token => ?_
  dsimp only
  split
  · exact bind (variableDeclaration values) fun _ => succeed _
  · exact succeed none

theorem forStatement (word : Token) (values : ∀ {known}, Levels known 0 value) (bodies : ∀ {known}, Levels known 0 body) :
    Levels known 0 (forStatement word value body) := by
  refine bind (expect _ (by decide) rfl) fun _ => bind (forInitializer values) fun initial => ?_
  refine bind (optionalBefore _ values) fun condition => bind (expect _ (by decide) rfl) fun _ => ?_
  refine bind (optionalBefore _ values) fun increment => bind (expect _ (by decide) rfl) fun _ => ?_
  exact bind bodies fun _ => succeed _

theorem furtherParameters (count steps : Nat) : Levels known 0 (furtherParameters count steps) := by
  induction steps generalizing known count with
  | zero => exact outOfSteps
  | succ steps ih =>
    refine bind (checkCount count _) fun _ => bind (expect _ (by decide) rfl) fun parameter => ?_
    exact bindAccept (by decide) (succeed _) fun _ => bind (ih (count + 1)) fun _ => succeed _

/-- The brace that is expected has to be closed by what follows. -/
theorem bindOpening {β : Type} {defect : Defect} {next : Token → Parser β} (givesUp : defect.givesUp = true)
    (rest : ∀ token, Levels (token :: known) 1 (next token)) : Levels known 0 (Parser.expect .leftBrace defect >>= next) := by
  have same : (Parser.expect .leftBrace defect >>= next) = (accept [.leftBrace] >>= fun found =>
      found.elim (peek >>= fun token => fail token defect) next) := by
    funext last tokens
    cases tokens with
    | nil => rfl
    | cons token rest =>
      by_cases kind : token.kind = .leftBrace <;>
        simp [Parser.expect, Bind.bind, andThen, accept, pure, Parser.succeed, peek, fail, Parsed.reportedAfter, kind]
  rw [same]
  refine bindBrace _ (peekFail _ fun _ => givesUp) fun token kind => ?_
  have opens := List.mem_singleton.mp kind
  rw [openings_singleton, if_pos opens]
  exact ⟨by simp [opens], rest token⟩

theorem functionDeclaration (steps : Nat) (closed : ∀ {known}, Levels known 1 (Parser.closedBlock declared)) :
    Levels known 0 (functionDeclaration steps declared) := by
  refine bind (expect _ (by decide) rfl) fun name => bind (expect _ (by decide) rfl) fun _ => ?_
  refine bind (bindTest (nextIs _) (succeed []) (furtherParameters 0 steps)) fun parameters => ?_
  refine bind (expect _ (by decide) rfl) fun _ => bindOpening rfl fun _ => ?_
  exact bind closed fun _ => succeed _

theorem plainDeclaration (steps : Nat) (values : ∀ {known}, Levels known 0 value) (bodies : ∀ {known}, Levels known 0 body)
    (closed : ∀ {known}, Levels known 1 (Parser.closedBlock declared)) :
    Levels known 0 (plainDeclaration steps value body declared) := by
  refine bindAccept (by decide) (bind bodies fun _ => succeed _) fun word => ?_
  dsimp only
  split
  · exact bind (variableDeclaration values) fun _ => succeed _
  · exact bind (functionDeclaration steps closed) fun _ => succeed _
  · exact bind (skipClass List.mem_cons_self) fun _ => succeed _

end Levels

structure StatementsLevel (steps : Nat) : Prop where
  statement : ∀ {known}, Levels known 0 (statement steps)
  declaration : ∀ {known}, Levels known 0 (declaration true steps)
  declarations : ∀ {known}, Levels known 0 (declarations true steps)

theorem StatementsLevel.closedBlock {steps : Nat} (level : StatementsLevel steps) {known : List Token} :
    Levels known 1 (closedBlock (Parser.declarations true steps)) :=
  .closedBlock (declarations_stop true steps) level.declarations

theorem StatementsLevel.plainDeclaration {steps : Nat} (level : StatementsLevel steps) {known : List Token} :
    Levels known 0 (plainDeclaration steps (expression steps) (Parser.statement steps) (Parser.declarations true steps)) :=
  .plainDeclaration steps (expressionsLevel steps).expression level.statement level.closedBlock

private theorem statement_levels {steps : Nat} (ih : StatementsLevel steps) {known : List Token} :
    Levels known 0 (statement (steps + 1)) := by
  have values : ∀ {known}, Levels known 0 (expression steps) := (expressionsLevel steps).expression
  unfold Parser.statement
  refine .bindBrace _ (.expressionStatement values) fun word kind => ?_
  rw [openings_singleton]
  simp only [List.mem_cons, List.not_mem_nil, or_false] at kind
  rcases kind with kind | kind | kind | kind | kind | kind | kind
  all_goals
    simp only [kind]
    refine ⟨TokenKind.noConfusion, ?_⟩
  · exact .forStatement word values ih.statement
  · exact .ifStatement word values ih.statement
  · exact .whileStatement word values ih.statement
  · exact .bind ih.closedBlock fun _ => .succeed _
  · exact .bind (.expect _ (by decide) rfl) fun _ => .succeed _
  · exact .bind (.expect _ (by decide) rfl) fun _ => .succeed _
  · exact .returnStatement word values

theorem statementsLevel (steps : Nat) : StatementsLevel steps := by
  induction steps with
  | zero => exact ⟨.outOfSteps, .outOfSteps, .outOfSteps⟩
  | succ steps ih =>
    refine ⟨statement_levels ih, .recover ih.plainDeclaration, fun {known} last tokens => ?_⟩
    cases tokens with
    | nil =>
      rw [declarations_nil]
      exact ⟨[], .nothing fun _ none => nomatch none⟩
    | cons token rest =>
      rw [declarations_cons]
      split
      · exact ⟨[], .nothing fun _ none => nomatch none⟩
      · exact Levels.bind ih.declaration (fun _ => .bind ih.declarations fun _ => .succeed _) last (token :: rest)

/-- The errors of a program are at its tokens. -/
theorem declaration_located {steps : Nat} {last : Token} {tokens rest : List Token} {found : Option Stmt}
    {errors : List Diagnostic} (read : declaration false steps last tokens = .done found errors rest) :
    rest <:+ tokens ∧ ∀ error ∈ errors, error.IsAmong (tokens ++ [last]) := by
  cases steps with
  | zero => cases read
  | succ steps =>
    rw [declaration] at read
    have passes : PassesTo [] 0 last tokens _ := (statementsLevel steps).plainDeclaration last tokens
    unfold recover at read
    split at read
    next outcome =>
      cases read
      rw [outcome] at passes
      obtain ⟨⟨taken, passes⟩, _⟩ := passes
      obtain ⟨shorter, located⟩ := passes.within
      exact ⟨(synchronize_suffix false _).trans shorter, located⟩
    next =>
      rw [read] at passes
      obtain ⟨taken, passes⟩ := passes
      exact passes.within

theorem declarations_located {steps : Nat} {last : Token} {tokens rest : List Token} {stmts : List Stmt}
    {errors : List Diagnostic} (read : declarations false steps last tokens = .done stmts errors rest) :
    ∀ error ∈ errors, error.IsAmong (tokens ++ [last]) := by
  induction steps generalizing tokens stmts errors with
  | zero => cases read
  | succ steps ih =>
    cases tokens with
    | nil =>
      rw [declarations_nil] at read
      cases read
      exact fun error none => nomatch none
    | cons token left =>
      rw [declarations_cons, if_neg (by simp [closesBlock])] at read
      change andThen (declaration false steps) _ last (token :: left) = _ at read
      unfold andThen at read
      cases outcome : declaration false steps last (token :: left) with
      | exhausted =>
        rw [outcome] at read
        cases read
      | failed faults behind => exact absurd outcome (declaration_recovers false steps last _ faults behind)
      | done found faults behind =>
        rw [outcome] at read
        obtain ⟨shorter, located⟩ := declaration_located outcome
        rcases declarations_stop false steps last behind with none | ⟨others, more, _, same, _⟩
        · simp [Bind.bind, andThen, none, Parsed.reportedAfter] at read
        · simp only [Bind.bind, andThen, same, pure, succeed, Parsed.reportedAfter, List.append_nil, Parsed.done.injEq] at read
          obtain ⟨_, rfl, rfl⟩ := read
          intro error member
          rcases List.mem_append.mp member with early | late
          · exact located error early
          · refine (ih same error late).more ?_
            exact List.append_subset.mpr ⟨List.subset_append_of_subset_left _ shorter.subset, List.subset_append_right _ _⟩

end Parser
end Treewalk
