import Mathlib.Data.List.Forall2
import Treewalk.Program

/-! Two parsers compared. Whatever relates tokens, trees and parsers, and is kept by the few ways in
which parsers are put together, relates each rule of the language to itself. The rules are taken
apart here once; facts about all of them are found by choosing the relation. -/

namespace Treewalk.Parser

/-- Relations between the tokens, trees and parsers of two readings. A parser is compared along with
the values that it yields. -/
structure Likeness where
  token : Token → Token → Prop
  expr : Expr → Expr → Prop
  stmt : Stmt → Stmt → Prop
  parser : {α β : Type} → (α → β → Prop) → Parser α → Parser β → Prop

def betweenSigns : List TokenKind :=
  [.bangEqual, .equalEqual, .greater, .greaterEqual, .less, .lessEqual, .minus, .plus, .slash, .star]

def beforeSigns : List TokenKind :=
  [.bang, .minus]

namespace Likeness

structure KeepsTrees (like : Likeness) : Prop where
  kind : ∀ {t u}, like.token t u → u.kind = t.kind
  lexeme : ∀ {t u}, like.token t u → u.lexeme = t.lexeme
  operatorAt : ∀ {t u} kind, like.token t u → like.token (.operatorAt kind t) (.operatorAt kind u)
  constant : ∀ {t u value}, value ≠ .foreign → like.token t u → like.expr (.literal value t.pos) (.literal value u.pos)
  spelled : ∀ {t u}, like.token t u → like.expr (.literal t.value t.pos) (.literal u.value u.pos)
  name : ∀ {t u}, like.token t u → like.expr (.name t) (.name u)
  target : ∀ {e f}, like.expr e f →
    (∃ t u, e = .name t ∧ f = .name u ∧ like.token t u) ∨ (∀ t, e ≠ .name t) ∧ ∀ u, f ≠ .name u
  assign : ∀ {t u e f}, like.token t u → like.expr e f → like.expr (.assign t e) (.assign u f)
  ternary : ∀ {c d e f g h}, like.expr c d → like.expr e f → like.expr g h →
    like.expr (.ternary c e g) (.ternary d f h)
  logical : ∀ {e f t u g h}, like.expr e f → like.token t u → like.expr g h →
    like.expr (.logical e t g) (.logical f u h)
  binary : ∀ {e f t u g h}, like.expr e f → like.token t u → t.kind ∈ betweenSigns → like.expr g h →
    like.expr (.binary e t g) (.binary f u h)
  unary : ∀ {t u e f}, like.token t u → t.kind ∈ beforeSigns → like.expr e f → like.expr (.unary t e) (.unary u f)
  group : ∀ {e f}, like.expr e f → like.expr (.group e) (.group f)
  call : ∀ {e f t u es fs}, like.expr e f → like.token t u → List.Forall₂ like.expr es fs →
    like.expr (.call e t es) (.call f u fs)
  expression : ∀ {e f}, like.expr e f → like.stmt (.expression e) (.expression f)
  declare : ∀ {t u e f}, like.token t u → Option.Rel like.expr e f →
    like.stmt (.declare t e) (.declare u f)
  block : ∀ {t u ss rs}, like.token t u → List.Forall₂ like.stmt ss rs →
    like.stmt (.block ss t.pos) (.block rs u.pos)
  branch : ∀ {e f s r a b t u}, like.expr e f → like.stmt s r → Option.Rel like.stmt a b →
    like.token t u → like.stmt (.branch e s a t.pos) (.branch f r b u.pos)
  loop : ∀ {e f s r a b t u}, like.expr e f → like.stmt s r → Option.Rel like.stmt a b →
    like.token t u → like.stmt (.loop e s a t.pos) (.loop f r b u.pos)
  breakLoop : ∀ {t u}, like.token t u → like.stmt (.breakLoop t) (.breakLoop u)
  continueLoop : ∀ {t u}, like.token t u → like.stmt (.continueLoop t) (.continueLoop u)
  function : ∀ {t u ts us ss rs}, like.token t u → List.Forall₂ like.token ts us →
    List.Forall₂ like.stmt ss rs → like.stmt (.function t ts ss) (.function u us rs)
  returnValue : ∀ {t u e f}, like.token t u → Option.Rel like.expr e f →
    like.stmt (.returnValue t e) (.returnValue u f)

/-- Parsers put together in the same way from like parsers are alike. A parser without steps may be
compared with one that has more of them. -/
structure KeepsParsers (like : Likeness) : Prop where
  succeed : ∀ {α β : Type} {values : α → β → Prop} {v w}, values v w →
    like.parser values (pure v) (pure w)
  bind : ∀ {α β γ δ : Type} {firsts : α → β → Prop} {values : γ → δ → Prop} {p q} {f : α → Parser γ}
    {g : β → Parser δ}, like.parser firsts p q → (∀ v w, firsts v w → like.parser values (f v) (g w)) →
    like.parser values (p >>= f) (q >>= g)
  outOfSteps : ∀ {α β : Type} {values : α → β → Prop} {q}, like.parser values outOfSteps q
  peek : like.parser like.token peek peek
  nextIs : ∀ kinds, like.parser Eq (nextIs kinds) (nextIs kinds)
  atEnd : like.parser Eq atEnd atEnd
  accept : ∀ kinds,
    like.parser (Option.Rel fun t u => like.token t u ∧ t.kind ∈ kinds) (accept kinds) (accept kinds)
  report : ∀ {t u} defect, like.token t u → like.parser Eq (report t defect) (report u defect)
  fail : ∀ {α β : Type} {values : α → β → Prop} {t u} defect, like.token t u →
    like.parser values (fail t defect) (fail u defect)
  skipBraces : like.parser Eq skipBraces skipBraces
  recover : ∀ nested {p q}, like.parser (Option.Rel like.stmt) p q →
    like.parser (Option.Rel like.stmt) (recover nested p) (recover nested q)

structure Lawful (like : Likeness) : Prop extends like.KeepsTrees, like.KeepsParsers

end Likeness

variable {like : Likeness}

namespace Likeness.Lawful

variable (lawful : like.Lawful)
include lawful

/-- The token that was found decides in both readings how to go on. -/
theorem bindSign {γ δ : Type} {values : γ → δ → Prop} (kinds : List TokenKind)
    {f : Option Token → Parser γ} {g : Option Token → Parser δ}
    (none : like.parser values (f none) (g none))
    (some : ∀ t u, like.token t u → t.kind ∈ kinds → like.parser values (f (some t)) (g (some u))) :
    like.parser values (accept kinds >>= f) (accept kinds >>= g) := by
  apply lawful.bind (lawful.accept kinds)
  intro found other alike
  cases alike with
  | none => exact none
  | some alike => exact some _ _ alike.1 alike.2

theorem bindAccept {γ δ : Type} {values : γ → δ → Prop} (kinds : List TokenKind)
    {f : Option Token → Parser γ} {g : Option Token → Parser δ}
    (none : like.parser values (f none) (g none))
    (some : ∀ t u, like.token t u → like.parser values (f (some t)) (g (some u))) :
    like.parser values (accept kinds >>= f) (accept kinds >>= g) :=
  lawful.bindSign kinds none fun t u alike _ => some t u alike

theorem bindTest {γ δ : Type} {values : γ → δ → Prop} {test : Parser Bool}
    (alike : like.parser Eq test test) {f h : Parser γ} {g k : Parser δ}
    (yes : like.parser values f g) (no : like.parser values h k) :
    like.parser values (test >>= fun b => if b then f else h) (test >>= fun b => if b then g else k) := by
  apply lawful.bind alike
  rintro answer _ rfl
  cases answer
  · exact no
  · exact yes

theorem expect (kind : TokenKind) (defect : Defect) :
    like.parser like.token (expect kind defect) (expect kind defect) := by
  apply lawful.bindAccept
  · exact lawful.bind lawful.peek fun _ _ alike => lawful.fail defect alike
  · exact fun _ _ alike => lawful.succeed alike

/-- The token of a given kind is taken in both readings, and only what follows matters. -/
theorem thenExpect {γ δ : Type} {values : γ → δ → Prop} (kind : TokenKind) (defect : Defect)
    {f : Token → Parser γ} {g : Token → Parser δ}
    (next : ∀ t u, like.token t u → like.parser values (f t) (g u)) :
    like.parser values (Parser.expect kind defect >>= f) (Parser.expect kind defect >>= g) :=
  lawful.bind (lawful.expect kind defect) next

theorem checkCount (count : Nat) (defect : Defect) :
    like.parser Eq (checkCount count defect) (checkCount count defect) := by
  apply lawful.bind lawful.peek
  intro t u alike
  split
  · exact lawful.succeed rfl
  · exact lawful.report defect alike

theorem noExpression : like.parser like.expr noExpression noExpression := by
  apply lawful.bind lawful.peek
  intro t u alike
  rw [lawful.kind alike, lawful.lexeme alike]
  split
  · exact lawful.fail _ alike
  · exact lawful.fail _ alike

theorem increment {t u : Token} (alike : like.token t u) :
    like.parser like.expr (increment t) (increment u) := by
  unfold Parser.increment
  rw [lawful.kind alike, lawful.lexeme alike]
  apply lawful.thenExpect
  intro target other same
  have sign : (if t.kind == .minusMinus then TokenKind.minus else .plus) ∈ betweenSigns := by
    split <;> decide
  exact lawful.succeed (lawful.assign same
    (lawful.binary (lawful.name same) (lawful.operatorAt _ alike) sign (lawful.constant Literal.noConfusion alike)))

omit lawful in
private theorem compoundOperator_binary {sign operator : TokenKind} (compound : compoundOperator sign = some operator) :
    operator ∈ betweenSigns := by
  unfold compoundOperator at compound
  split at compound <;> cases compound <;> decide

theorem assignedValue {t u s r : Token} {e f : Expr} (target : like.token t u) (sign : like.token s r)
    (value : like.expr e f) : like.expr (assignedValue t s e) (assignedValue u r f) := by
  unfold Parser.assignedValue
  rw [lawful.kind sign]
  split
  next kind compound =>
    exact lawful.binary (lawful.name target) (lawful.operatorAt _ sign) (compoundOperator_binary compound) value
  next => exact value

theorem atom? {t u : Token} (alike : like.token t u) :
    Option.Rel like.expr (atom? t) (atom? u) := by
  unfold Parser.atom?
  rw [lawful.kind alike]
  split
  all_goals constructor
  · exact lawful.constant Literal.noConfusion alike
  · exact lawful.constant Literal.noConfusion alike
  · exact lawful.constant Literal.noConfusion alike
  · exact lawful.spelled alike
  · exact lawful.spelled alike
  · exact lawful.name alike

end Likeness.Lawful

def Level.Alike (like : Likeness) (level : Level) : Prop :=
  ∀ {e f t u g h}, like.expr e f → like.token t u → t.kind ∈ level.operators → like.expr g h →
    like.expr (level.node e t g) (level.node f u h)

theorem levels_alike (lawful : like.Lawful) : ∀ level ∈ levels, level.Alike like := by
  intro level member
  simp only [levels, List.mem_cons, List.not_mem_nil, or_false] at member
  rcases member with rfl | rfl | rfl | rfl | rfl | rfl
  · exact fun left sign _ right => lawful.logical left sign right
  · exact fun left sign _ right => lawful.logical left sign right
  all_goals
    intro _ _ t _ _ _ left sign kind right
    refine lawful.binary left sign ?_ right
    revert kind
    generalize t.kind = sort
    cases sort <;> decide

structure ExpressionsAlike (like : Likeness) (steps more : Nat) : Prop where
  expression : like.parser like.expr (expression steps) (expression more)
  ternary : like.parser like.expr (ternary steps) (ternary more)
  binary : ∀ levels : List Level, (∀ level ∈ levels, level.Alike like) →
    like.parser like.expr (binary levels steps) (binary levels more)
  operands : ∀ level tighter, level.Alike like → (∀ level ∈ tighter, level.Alike like) → ∀ {e f},
    like.expr e f → like.parser like.expr (operands level tighter e steps) (operands level tighter f more)
  unary : like.parser like.expr (unary steps) (unary more)
  calls : ∀ {e f}, like.expr e f → like.parser like.expr (calls e steps) (calls f more)
  argumentList : like.parser (List.Forall₂ like.expr) (argumentList steps) (argumentList more)
  furtherArguments : ∀ count,
    like.parser (List.Forall₂ like.expr) (furtherArguments count steps) (furtherArguments count more)
  primary : like.parser like.expr (primary steps) (primary more)

theorem expressionsAlike_zero (lawful : like.Lawful) (more : Nat) : ExpressionsAlike like 0 more := by
  constructor
  · exact lawful.outOfSteps
  · exact lawful.outOfSteps
  · intro levels _
    cases levels <;> exact lawful.outOfSteps
  · intro level tighter _ _ e f _
    exact lawful.outOfSteps
  · exact lawful.outOfSteps
  · exact fun _ => lawful.outOfSteps
  · exact lawful.outOfSteps
  · exact fun _ => lawful.outOfSteps
  · exact lawful.outOfSteps

theorem expressionsAlike_succ (lawful : like.Lawful) {steps more : Nat}
    (ih : ExpressionsAlike like steps more) : ExpressionsAlike like (steps + 1) (more + 1) where
  expression := by
    unfold Parser.expression
    refine lawful.bind ih.ternary fun left other alike => ?_
    refine lawful.bindAccept _ (lawful.succeed alike) fun sign mark same => ?_
    refine lawful.bind ih.expression fun value result equal => ?_
    rcases lawful.target alike with ⟨t, u, rfl, rfl, target⟩ | ⟨noName, noOther⟩
    · exact lawful.succeed (lawful.assign target (lawful.assignedValue target same equal))
    · have dropped : like.parser like.expr (do report sign .invalidTarget; return left)
          (do report mark .invalidTarget; return other) :=
        lawful.bind (lawful.report _ same) fun _ _ _ => lawful.succeed alike
      split
      · exact absurd rfl (noName _)
      · exact dropped
  ternary := by
    unfold Parser.ternary
    refine lawful.bind (ih.binary levels (levels_alike lawful)) fun condition other alike => ?_
    refine lawful.bindAccept _ (lawful.succeed alike) fun _ _ _ => ?_
    refine lawful.bind ih.ternary fun first one same => ?_
    refine lawful.thenExpect _ _ fun _ _ _ => ?_
    refine lawful.bind ih.ternary fun second two equal => ?_
    exact lawful.succeed (lawful.ternary alike same equal)
  binary := by
    intro levels alike
    cases levels with
    | nil => exact ih.unary
    | cons level tighter =>
      obtain ⟨this, others⟩ := List.forall_mem_cons.mp alike
      exact lawful.bind (ih.binary tighter others) fun _ _ same => ih.operands level tighter this others same
  operands := by
    intro level tighter this others e f alike
    refine lawful.bindSign _ (lawful.succeed alike) fun operator sign same kind => ?_
    refine lawful.bind (ih.binary tighter others) fun right other equal => ?_
    exact ih.operands level tighter this others (this alike same kind equal)
  unary := by
    unfold Parser.unary
    refine lawful.bindSign _ ?_ fun sign mark same kind => ?_
    · exact lawful.bind ih.primary fun _ _ alike => ih.calls alike
    · dsimp only
      rw [lawful.kind same]
      split
      · exact lawful.increment same
      next plain =>
        have sign : sign.kind ∈ beforeSigns := by
          generalize sign.kind = sort at kind plain
          cases sort <;> simp_all [beforeSigns]
        exact lawful.bind ih.unary fun _ _ alike => lawful.succeed (lawful.unary same sign alike)
  calls := by
    intro e f alike
    refine lawful.bindAccept _ (lawful.succeed alike) fun _ _ _ => ?_
    refine lawful.bind ih.argumentList fun found others same => ?_
    refine lawful.thenExpect _ _ fun paren closing equal => ?_
    exact ih.calls (lawful.call alike equal same)
  argumentList := by
    exact lawful.bindTest (lawful.nextIs _) (lawful.succeed .nil) (ih.furtherArguments 0)
  furtherArguments := by
    intro count
    refine lawful.bind (lawful.checkCount count _) fun _ _ _ => ?_
    refine lawful.bind ih.expression fun argument other alike => ?_
    refine lawful.bindAccept _ (lawful.succeed (.cons alike .nil)) fun _ _ _ => ?_
    exact lawful.bind (ih.furtherArguments (count + 1)) fun _ _ same => lawful.succeed (.cons alike same)
  primary := by
    unfold Parser.primary
    refine lawful.bindAccept _ lawful.noExpression fun token other alike => ?_
    have atoms := lawful.atom? alike
    dsimp only
    generalize Parser.atom? token = first at atoms ⊢
    generalize Parser.atom? other = second at atoms ⊢
    cases atoms with
    | some same => exact lawful.succeed same
    | none =>
      refine lawful.bind ih.expression fun _ _ same => ?_
      exact lawful.thenExpect _ _ fun _ _ _ => lawful.succeed (lawful.group same)

theorem expressionsAlike (lawful : like.Lawful) {steps more : Nat} (enough : steps ≤ more) :
    ExpressionsAlike like steps more := by
  induction steps generalizing more with
  | zero => exact expressionsAlike_zero lawful more
  | succ steps ih =>
    obtain ⟨more, rfl⟩ : ∃ fewer, more = fewer + 1 := ⟨more - 1, by omega⟩
    exact expressionsAlike_succ lawful (ih (by omega))

namespace Likeness.Lawful

variable (lawful : like.Lawful)
include lawful

theorem skipClass {t u : Token} (alike : like.token t u) : like.parser Eq (skipClass t) (skipClass u) := by
  refine lawful.bind (lawful.report _ alike) fun _ _ _ => ?_
  refine lawful.bind (lawful.accept _) fun _ _ _ => ?_
  exact lawful.bindAccept _ (lawful.succeed rfl) fun _ _ _ => lawful.skipBraces

section

variable {value other : Parser Expr} (values : like.parser like.expr value other)
include values

theorem initializer : like.parser (Option.Rel like.expr) (initializer value) (initializer other) := by
  refine lawful.bindAccept _ (lawful.succeed .none) fun _ _ _ => ?_
  exact lawful.bind values fun _ _ alike => lawful.succeed (.some alike)

theorem variableDeclaration : like.parser like.stmt (variableDeclaration value) (variableDeclaration other) := by
  refine lawful.thenExpect _ _ fun _ _ name => ?_
  refine lawful.bind (lawful.initializer values) fun _ _ initial => ?_
  exact lawful.thenExpect _ _ fun _ _ _ => lawful.succeed (lawful.declare name initial)

theorem expressionStatement : like.parser like.stmt (expressionStatement value) (expressionStatement other) := by
  refine lawful.bind values fun _ _ alike => ?_
  exact lawful.thenExpect _ _ fun _ _ _ => lawful.succeed (lawful.expression alike)

theorem optionalBefore (closer : TokenKind) :
    like.parser (Option.Rel like.expr) (optionalBefore closer value) (optionalBefore closer other) :=
  lawful.bindTest (lawful.nextIs _) (lawful.succeed .none)
    (lawful.bind values fun _ _ alike => lawful.succeed (.some alike))

theorem returnStatement {t u : Token} (word : like.token t u) :
    like.parser like.stmt (returnStatement t value) (returnStatement u other) := by
  refine lawful.bind (lawful.optionalBefore values _) fun _ _ result => ?_
  exact lawful.thenExpect _ _ fun _ _ _ => lawful.succeed (lawful.returnValue word result)

theorem forInitializer : like.parser (Option.Rel like.stmt) (forInitializer value) (forInitializer other) := by
  refine lawful.bindAccept _ ?_ fun token mark same => ?_
  · exact lawful.bind (lawful.expressionStatement values) fun _ _ alike => lawful.succeed (.some alike)
  · dsimp only
    rw [lawful.kind same]
    split
    · exact lawful.bind (lawful.variableDeclaration values) fun _ _ alike => lawful.succeed (.some alike)
    · exact lawful.succeed .none

variable {body block : Parser Stmt} (bodies : like.parser like.stmt body block)
include bodies

theorem ifStatement {t u : Token} (word : like.token t u) :
    like.parser like.stmt (ifStatement t value body) (ifStatement u other block) := by
  refine lawful.thenExpect _ _ fun _ _ _ => ?_
  refine lawful.bind values fun _ _ condition => ?_
  refine lawful.thenExpect _ _ fun _ _ _ => ?_
  refine lawful.bind bodies fun _ _ consequence => ?_
  refine lawful.bindAccept _ ?_ fun _ _ _ => ?_
  · exact lawful.succeed (lawful.branch condition consequence .none word)
  · exact lawful.bind bodies fun _ _ alternative =>
      lawful.succeed (lawful.branch condition consequence (.some alternative) word)

theorem whileStatement {t u : Token} (word : like.token t u) :
    like.parser like.stmt (whileStatement t value body) (whileStatement u other block) := by
  refine lawful.thenExpect _ _ fun _ _ _ => ?_
  refine lawful.bind values fun _ _ condition => ?_
  refine lawful.thenExpect _ _ fun _ _ _ => ?_
  exact lawful.bind bodies fun _ _ repeated => lawful.succeed (lawful.loop condition repeated .none word)

omit values bodies in
theorem forLoop {t u : Token} {i j : Option Stmt} {c d n m : Option Expr} {s r : Stmt}
    (word : like.token t u) (initial : Option.Rel like.stmt i j) (condition : Option.Rel like.expr c d)
    (increment : Option.Rel like.expr n m) (repeated : like.stmt s r) :
    like.stmt (forLoop t i c n s) (forLoop u j d m r) := by
  have conditions : like.expr (c.getD (.literal (.bool true) t.pos)) (d.getD (.literal (.bool true) u.pos)) := by
    cases condition with
    | none => exact lawful.constant Literal.noConfusion word
    | some alike => exact alike
  have posts : Option.Rel like.stmt (n.map .expression) (m.map .expression) := by
    cases increment with
    | none => exact .none
    | some alike => exact .some (lawful.expression alike)
  have loops := lawful.loop conditions repeated posts word
  cases initial with
  | none => exact loops
  | some alike => exact lawful.block word (.cons alike (.cons loops .nil))

theorem forStatement {t u : Token} (word : like.token t u) :
    like.parser like.stmt (forStatement t value body) (forStatement u other block) := by
  refine lawful.thenExpect _ _ fun _ _ _ => ?_
  refine lawful.bind (lawful.forInitializer values) fun _ _ initial => ?_
  refine lawful.bind (lawful.optionalBefore values _) fun _ _ condition => ?_
  refine lawful.thenExpect _ _ fun _ _ _ => ?_
  refine lawful.bind (lawful.optionalBefore values _) fun _ _ increment => ?_
  refine lawful.thenExpect _ _ fun _ _ _ => ?_
  refine lawful.bind bodies fun _ _ repeated => ?_
  exact lawful.succeed (lawful.forLoop word initial condition increment repeated)

end

theorem furtherParameters (count : Nat) {steps more : Nat} (enough : steps ≤ more) :
    like.parser (List.Forall₂ like.token) (furtherParameters count steps) (furtherParameters count more) := by
  induction steps generalizing count more with
  | zero => exact lawful.outOfSteps
  | succ steps ih =>
    obtain ⟨more, rfl⟩ : ∃ fewer, more = fewer + 1 := ⟨more - 1, by omega⟩
    refine lawful.bind (lawful.checkCount count _) fun _ _ _ => ?_
    refine lawful.thenExpect _ _ fun _ _ parameter => ?_
    refine lawful.bindAccept _ (lawful.succeed (.cons parameter .nil)) fun _ _ _ => ?_
    exact lawful.bind (ih (count + 1) (by omega)) fun _ _ rest => lawful.succeed (.cons parameter rest)

section

variable {declarations others : Parser (List Stmt)}
  (bodies : like.parser (List.Forall₂ like.stmt) declarations others)
include bodies

theorem closedBlock : like.parser (List.Forall₂ like.stmt) (closedBlock declarations) (closedBlock others) := by
  refine lawful.bind bodies fun _ _ body => ?_
  exact lawful.thenExpect _ _ fun _ _ _ => lawful.succeed body

theorem functionDeclaration {steps more : Nat} (enough : steps ≤ more) :
    like.parser like.stmt (functionDeclaration steps declarations) (functionDeclaration more others) := by
  refine lawful.thenExpect _ _ fun _ _ name => ?_
  refine lawful.thenExpect _ _ fun _ _ _ => ?_
  refine lawful.bind (lawful.bindTest (lawful.nextIs _) (lawful.succeed .nil)
    (lawful.furtherParameters 0 enough)) fun _ _ parameters => ?_
  refine lawful.thenExpect _ _ fun _ _ _ => ?_
  refine lawful.thenExpect _ _ fun _ _ _ => ?_
  refine lawful.bind (lawful.closedBlock bodies) fun _ _ body => ?_
  exact lawful.succeed (lawful.function name parameters body)

end

theorem plainDeclaration {value other : Parser Expr} {statement block : Parser Stmt}
    {declarations others : Parser (List Stmt)} (values : like.parser like.expr value other)
    (statements : like.parser like.stmt statement block)
    (bodies : like.parser (List.Forall₂ like.stmt) declarations others) {steps more : Nat} (enough : steps ≤ more) :
    like.parser (Option.Rel like.stmt) (plainDeclaration steps value statement declarations)
      (plainDeclaration more other block others) := by
  refine lawful.bindAccept _ ?_ fun word mark alike => ?_
  · exact lawful.bind statements fun _ _ same => lawful.succeed (.some same)
  · dsimp only
    rw [lawful.kind alike]
    split
    · exact lawful.bind (lawful.variableDeclaration values) fun _ _ same => lawful.succeed (.some same)
    · exact lawful.bind (lawful.functionDeclaration bodies enough) fun _ _ same => lawful.succeed (.some same)
    · exact lawful.bind (lawful.skipClass alike) fun _ _ _ => lawful.succeed .none

theorem declarationsEnd (nested : Bool) : like.parser Eq (declarationsEnd nested) (declarationsEnd nested) := by
  cases nested
  · exact lawful.atEnd
  · exact lawful.bindTest lawful.atEnd (lawful.succeed rfl) (lawful.nextIs _)

end Likeness.Lawful

structure StatementsAlike (like : Likeness) (steps more : Nat) : Prop where
  statement : like.parser like.stmt (statement steps) (statement more)
  declaration : ∀ nested,
    like.parser (Option.Rel like.stmt) (declaration nested steps) (declaration nested more)
  declarations : ∀ nested,
    like.parser (List.Forall₂ like.stmt) (declarations nested steps) (declarations nested more)

theorem forall₂_toList_append {α β : Type} {related : α → β → Prop} {a : Option α} {b : Option β}
    {as : List α} {bs : List β} (first : Option.Rel related a b) (rest : List.Forall₂ related as bs) :
    List.Forall₂ related (a.toList ++ as) (b.toList ++ bs) := by
  cases first with
  | none => exact rest
  | some alike => exact .cons alike rest

theorem statementsAlike_succ (lawful : like.Lawful) {steps more : Nat} (enough : steps ≤ more)
    (ih : StatementsAlike like steps more) : StatementsAlike like (steps + 1) (more + 1) where
  statement := by
    have values := (expressionsAlike lawful enough).expression
    unfold Parser.statement
    refine lawful.bindAccept _ (lawful.expressionStatement values) fun word other alike => ?_
    dsimp only
    rw [lawful.kind alike]
    split
    · exact lawful.forStatement values ih.statement alike
    · exact lawful.ifStatement values ih.statement alike
    · exact lawful.whileStatement values ih.statement alike
    · exact lawful.thenExpect _ _ fun _ _ _ => lawful.succeed (lawful.breakLoop alike)
    · exact lawful.thenExpect _ _ fun _ _ _ => lawful.succeed (lawful.continueLoop alike)
    · exact lawful.returnStatement values alike
    · exact lawful.bind (lawful.closedBlock (ih.declarations true)) fun _ _ body =>
        lawful.succeed (lawful.block alike body)
  declaration := by
    intro nested
    have values := (expressionsAlike lawful enough).expression
    exact lawful.recover nested (lawful.plainDeclaration values ih.statement (ih.declarations true) enough)
  declarations := by
    intro nested
    refine lawful.bindTest (lawful.declarationsEnd nested) (lawful.succeed .nil) ?_
    refine lawful.bind (ih.declaration nested) fun _ _ first => ?_
    refine lawful.bind (ih.declarations nested) fun _ _ rest => ?_
    exact lawful.succeed (forall₂_toList_append first rest)

/-- Each rule is like itself, also when one side has more steps. -/
theorem statementsAlike (lawful : like.Lawful) {steps more : Nat} (enough : steps ≤ more) :
    StatementsAlike like steps more := by
  induction steps generalizing more with
  | zero => exact ⟨lawful.outOfSteps, fun _ => lawful.outOfSteps, fun _ => lawful.outOfSteps⟩
  | succ steps ih =>
    obtain ⟨more, rfl⟩ : ∃ fewer, more = fewer + 1 := ⟨more - 1, by omega⟩
    exact statementsAlike_succ lawful (by omega) (ih (by omega))

end Treewalk.Parser
