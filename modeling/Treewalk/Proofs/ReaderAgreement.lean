import Treewalk.Proofs.IndexedReader
import Treewalk.Proofs.ViablePrefix

/-! Reading by number agrees with reading from a list. From a cursor in front of some tokens each rule comes to
the same end as the parser does on these tokens: it yields or fails with the same errors, and stands in front of
what the parser leaves, among the same tokens and with as many blocks open. So it never looks for a token that
is not there. -/

namespace Treewalk

/-- What stays as it is while a reader goes on: the token at which it has to stop, the tokens behind that, and
whether a block is open. -/
structure Ground where
  last : Token
  behind : List Token
  nested : Bool
  ends : last.isEnd = true

def Ground.within (ground : Ground) : Ground :=
  { ground with nested := true }

variable {ground : Ground}

/-- The cursor stands in front of `rest`, the tokens up to the one at which it has to stop. -/
structure Cursor.Stands (ground : Ground) (rest : List Token) (cursor : Cursor) : Prop where
  ahead : cursor.tokens.toList.drop cursor.current = rest ++ ground.last :: ground.behind
  plain : ∀ token ∈ rest, token.isEnd = false
  nested : decide (0 < cursor.blocks) = ground.nested

/-- One cursor has become another, in front of `rest`, and these errors were reported on the way. -/
structure Cursor.Arrives (ground : Ground) (start : Cursor) (errors : List Diagnostic) (rest : List Token)
    (cursor : Cursor) : Prop extends cursor.Stands ground rest where
  tokens : cursor.tokens = start.tokens
  blocks : cursor.blocks = start.blocks
  errors : cursor.errors = start.errors ++ errors

inductive Read.Agrees {α : Type} (ground : Ground) (start : Cursor) : Read α → Parsed α → Prop where
  | done {value errors rest cursor} (arrives : start.Arrives ground errors rest cursor) :
    Agrees ground start (.done value cursor) (.done value errors rest)
  | failed {errors rest cursor} (arrives : start.Arrives ground errors rest cursor) :
    Agrees ground start (.failed cursor) (.failed errors rest)
  | exhausted : Agrees ground start .exhausted .exhausted

namespace Cursor

variable {cursor start : Cursor} {token : Token} {rest : List Token}

theorem Stands.arrives (stands : cursor.Stands ground rest) : cursor.Arrives ground [] rest cursor :=
  ⟨stands, rfl, rfl, (List.append_nil _).symm⟩

theorem Stands.size (stands : cursor.Stands ground rest) :
    cursor.current + rest.length + ground.behind.length + 1 = cursor.tokens.size := by
  have lengths := congrArg List.length stands.ahead
  simp only [List.length_drop, Array.length_toList, List.length_append, List.length_cons] at lengths
  omega

theorem Stands.head (stands : cursor.Stands ground rest) :
    cursor.tokens[cursor.current]? = some (rest.headD ground.last) := by
  rw [← Array.getElem?_toList, ← List.head?_drop, stands.ahead]
  cases rest <;> rfl

theorem Stands.next (stands : cursor.Stands ground (token :: rest)) : cursor.Arrives ground [] rest cursor.next where
  ahead := by
    rw [Cursor.next, ← List.drop_drop, stands.ahead]
    rfl
  plain := fun other member => stands.plain other (List.mem_cons_of_mem _ member)
  nested := stands.nested
  tokens := rfl
  blocks := rfl
  errors := (List.append_nil _).symm

theorem Arrives.trans {errors more : List Diagnostic} {left : List Token} {final : Cursor}
    (first : start.Arrives ground errors rest cursor) (second : cursor.Arrives ground more left final) :
    start.Arrives ground (errors ++ more) left final where
  toStands := second.toStands
  tokens := second.tokens.trans first.tokens
  blocks := second.blocks.trans first.blocks
  errors := by rw [second.errors, first.errors, List.append_assoc]

theorem Stands.enter (stands : cursor.Stands ground rest) :
    { cursor with blocks := cursor.blocks + 1 }.Stands ground.within rest :=
  ⟨stands.ahead, stands.plain, decide_eq_true (Nat.succ_pos _)⟩

theorem Arrives.leave {errors : List Diagnostic} {left : List Token} {final : Cursor}
    (arrives : { cursor with blocks := cursor.blocks + 1 }.Arrives ground.within errors left final)
    (stands : cursor.Stands ground rest) : cursor.Arrives ground errors left { final with blocks := final.blocks - 1 } where
  ahead := arrives.ahead
  plain := arrives.plain
  nested := by rw [arrives.blocks]; exact stands.nested
  tokens := arrives.tokens
  blocks := by rw [arrives.blocks]; rfl
  errors := arrives.errors

end Cursor

theorem Read.Agrees.after {α : Type} {start cursor : Cursor} {errors : List Diagnostic} {rest : List Token}
    {read : Read α} {parsed : Parsed α} (agrees : read.Agrees ground cursor parsed)
    (first : start.Arrives ground errors rest cursor) : read.Agrees ground start (parsed.reportedAfter errors) := by
  cases agrees with
  | done second => exact .done (first.trans second)
  | failed second => exact .failed (first.trans second)
  | exhausted => exact .exhausted

theorem Read.Agrees.of_done {α : Type} {start : Cursor} {value : α} {errors : List Diagnostic} {rest : List Token}
    {read : Read α} (agrees : read.Agrees ground start (.done value errors rest)) :
    ∃ cursor, read = .done value cursor ∧ start.Arrives ground errors rest cursor := by
  cases agrees with
  | done arrives => exact ⟨_, rfl, arrives⟩

theorem Read.Agrees.of_exhausted {α : Type} {start : Cursor} {read : Read α}
    (agrees : read.Agrees ground start .exhausted) : read = .exhausted := by
  cases agrees
  rfl

/-- What agrees behind a token that was taken agrees in front of it. -/
theorem Read.Agrees.next {α : Type} {cursor : Cursor} {token : Token} {rest : List Token} {read : Read α}
    {parsed : Parsed α} (stands : cursor.Stands ground (token :: rest)) (agrees : read.Agrees ground cursor.next parsed) :
    read.Agrees ground cursor parsed := by
  have whole := agrees.after stands.next
  rwa [Parsed.reportedAfter_nil] at whole

namespace Reader

open Cursor

section

variable {cursor : Cursor} {token : Token} {rest : List Token}

theorem bind_of_done {α β : Type} {reader : Reader α} {next : α → Reader β} {value : α} {after : Cursor}
    (read : reader cursor = .done value after) : (reader >>= next) cursor = next value after := by
  change andThen reader next cursor = _
  rw [andThen, read]

theorem peek_eq (stands : cursor.Stands ground rest) : peek cursor = .done (rest.headD ground.last) cursor := by
  rw [peek, lookUp, stands.head]

theorem atEnd_eq (stands : cursor.Stands ground rest) : atEnd cursor = .done rest.isEmpty cursor := by
  rw [atEnd, bind_of_done (peek_eq stands)]
  cases rest with
  | nil => exact congrArg (Read.done · cursor) ground.ends
  | cons token rest => exact congrArg (Read.done · cursor) (stands.plain token List.mem_cons_self)

theorem check_end (stands : cursor.Stands ground []) (kind : TokenKind) : check kind cursor = .done false cursor := by
  rw [check, bind_of_done (atEnd_eq stands)]
  rfl

theorem check_eq (stands : cursor.Stands ground (token :: rest)) (kind : TokenKind) :
    check kind cursor = .done (token.kind == kind) cursor := by
  rw [check, bind_of_done (atEnd_eq stands)]
  exact bind_of_done (peek_eq stands)

/-- The token that is taken is the one that is seen when the reader looks back. -/
theorem previous_next (stands : cursor.Stands ground (token :: rest)) :
    previous cursor.next = .done token cursor.next := by
  have found : cursor.next.tokens[cursor.current]? = some token := stands.head
  change lookUp cursor.current cursor.next = _
  rw [lookUp, found]

theorem advance_eq (stands : cursor.Stands ground (token :: rest)) : advance cursor = .done token cursor.next := by
  rw [advance, bind_of_done (atEnd_eq stands)]
  exact previous_next stands

/-- At the end the reader stays where it is, and can look back if it took anything. -/
theorem advance_end (stands : cursor.Stands ground []) (taken : 0 < cursor.current) :
    ∃ token, advance cursor = .done token cursor := by
  obtain ⟨before, same⟩ : ∃ before, cursor.current = before + 1 := ⟨cursor.current - 1, by omega⟩
  have inside : before < cursor.tokens.size := by
    have size := stands.size
    omega
  refine ⟨cursor.tokens[before], ?_⟩
  rw [advance, bind_of_done (atEnd_eq stands)]
  change previous cursor = _
  simp only [previous, same, lookUp, Array.getElem?_eq_getElem inside]

theorem accept_end (stands : cursor.Stands ground []) (kinds : List TokenKind) : accept kinds cursor = .done none cursor := by
  induction kinds with
  | nil => rfl
  | cons kind kinds ih =>
    rw [accept, bind_of_done (check_end stands kind)]
    exact ih

theorem accept_eq (stands : cursor.Stands ground (token :: rest)) (kinds : List TokenKind) :
    accept kinds cursor =
      if token.kind ∈ kinds then .done (some token) cursor.next else .done none cursor := by
  induction kinds with
  | nil => rfl
  | cons kind kinds ih =>
    rw [accept, bind_of_done (check_eq stands kind)]
    by_cases same : token.kind = kind
    · rw [if_pos (beq_iff_eq.mpr same), if_pos (same ▸ List.mem_cons_self)]
      exact bind_of_done (advance_eq stands)
    · simp only [beq_eq_false_iff_ne.mpr same, Bool.false_eq_true, if_false, List.mem_cons, same, false_or]
      exact ih

end

theorem atom?_starts {token : Token} {atom : Expr} (found : Parser.atom? token = some atom) :
    token.kind ∈ Parser.atomStarts := by
  unfold Parser.atom? at found
  split at found <;> simp_all [Parser.atomStarts]

/-- From wherever a cursor stands, the reader comes to the same end as the parser. -/
def Follows {α : Type} (ground : Ground) (reader : Reader α) (parser : Parser α) : Prop :=
  ∀ cursor rest, cursor.Stands ground rest → (reader cursor).Agrees ground cursor (parser ground.last rest)

theorem agrees_bind {α β : Type} {reader : Reader α} {parser : Parser α} {next : α → Reader β} {other : α → Parser β}
    {cursor : Cursor} {rest : List Token} (first : (reader cursor).Agrees ground cursor (parser ground.last rest))
    (second : ∀ value, Follows ground (next value) (other value)) :
    ((reader >>= next) cursor).Agrees ground cursor ((parser >>= other) ground.last rest) := by
  change (andThen reader next cursor).Agrees ground cursor (Parser.andThen parser other ground.last rest)
  unfold andThen Parser.andThen
  generalize reader cursor = read at first ⊢
  generalize parser ground.last rest = parsed at first ⊢
  cases first with
  | done arrives => exact (second _ _ _ arrives.toStands).after arrives
  | failed arrives => exact .failed arrives
  | exhausted => exact .exhausted

namespace Follows

variable {α β : Type}

theorem succeed (value : α) : Follows ground (pure value) (pure value) :=
  fun _ _ stands => .done stands.arrives

theorem bind {reader : Reader α} {parser : Parser α} {next : α → Reader β} {other : α → Parser β}
    (first : Follows ground reader parser) (second : ∀ value, Follows ground (next value) (other value)) :
    Follows ground (reader >>= next) (parser >>= other) :=
  fun cursor rest stands => agrees_bind (first cursor rest stands) second

theorem outOfSteps : Follows ground (outOfSteps : Reader α) Parser.outOfSteps :=
  fun _ _ _ => .exhausted

theorem report (token : Token) (defect : Defect) : Follows ground (report token defect) (Parser.report token defect) :=
  fun _ _ stands => .done ⟨⟨stands.ahead, stands.plain, stands.nested⟩, rfl, rfl, rfl⟩

theorem fail (token : Token) (defect : Defect) :
    Follows ground (fail token defect : Reader α) (Parser.fail token defect) :=
  fun _ _ stands => .failed ⟨⟨stands.ahead, stands.plain, stands.nested⟩, rfl, rfl, rfl⟩

theorem peek : Follows ground peek Parser.peek := by
  intro cursor rest stands
  rw [peek_eq stands]
  exact .done stands.arrives

theorem check (kind : TokenKind) : Follows ground (check kind) (Parser.nextIs [kind]) := by
  intro cursor rest stands
  cases rest with
  | nil =>
    rw [check_end stands]
    exact .done stands.arrives
  | cons token rest =>
    have same : [kind].contains token.kind = (token.kind == kind) := Bool.or_false _
    rw [check_eq stands, Parser.nextIs, same]
    exact .done stands.arrives

theorem bindAccept (kinds : List TokenKind) {next : Option Token → Reader β} {other : Option Token → Parser β}
    (none : Follows ground (next none) (other none))
    (some : ∀ token, Follows ground (next (some token)) (other (some token))) :
    Follows ground (accept kinds >>= next) (Parser.accept kinds >>= other) := by
  intro cursor rest stands
  cases rest with
  | nil =>
    rw [bind_of_done (accept_end stands kinds), Parser.accept_nil]
    exact none cursor [] stands
  | cons token rest =>
    have found := accept_eq stands kinds
    rw [Parser.accept_cons]
    split at found
    next member =>
      rw [bind_of_done found, if_pos member]
      exact (some token _ _ stands.next.toStands).next stands
    next missing =>
      rw [bind_of_done found, if_neg missing]
      exact none cursor (token :: rest) stands

/-- One kind after the other is tried by the reader, all of them at once by the parser. -/
theorem ifAccepted {kinds more : List TokenKind} {taken : Token → Reader β} {otherwise : Reader β}
    {other : Option Token → Parser β}
    (found : ∀ token, token.kind ∈ kinds → Follows ground (taken token) (other (some token)))
    (rest : Follows ground otherwise (Parser.accept more >>= other)) :
    Follows ground (ifAccepted kinds taken otherwise) (Parser.accept (kinds ++ more) >>= other) := by
  intro cursor tokens stands
  have refused := rest cursor tokens stands
  unfold Reader.ifAccepted
  cases tokens with
  | nil =>
    rw [Parser.accept_nil] at refused ⊢
    rw [bind_of_done (accept_end stands kinds)]
    exact refused
  | cons token tokens =>
    have outcome := accept_eq stands kinds
    rw [Parser.accept_cons] at refused ⊢
    split at outcome
    next member =>
      rw [bind_of_done outcome, if_pos (List.mem_append_left _ member)]
      exact (found token member _ _ stands.next.toStands).next stands
    next missing =>
      simp only [List.mem_append, missing, false_or]
      rw [bind_of_done outcome]
      exact refused

/-- When all kinds were tried, the reader goes on as the parser does without a token. -/
theorem acceptNone {reader : Reader β} {other : Option Token → Parser β} (follows : Follows ground reader (other none)) :
    Follows ground reader (Parser.accept [] >>= other) := by
  intro cursor rest stands
  have same : (Parser.accept [] >>= other) ground.last rest = other none ground.last rest := by
    cases rest with
    | nil => exact Parser.accept_nil [] other _
    | cons token rest => rw [Parser.accept_cons, if_neg (List.not_mem_nil)]
  rw [same]
  exact follows cursor rest stands

/-- A token of the given kind is taken only when it was seen to be one. -/
theorem expect (kind : TokenKind) (defect : Defect) : Follows ground (expect kind defect) (Parser.expect kind defect) := by
  have refused : Follows ground (Reader.peek >>= fun token => Reader.fail token defect : Reader Token)
      (Parser.peek >>= fun token => Parser.fail token defect) :=
    bind peek fun token => fail token defect
  intro cursor rest stands
  cases rest with
  | nil =>
    rw [Reader.expect, bind_of_done (check_end stands kind), Parser.expect, Parser.accept_nil]
    exact refused cursor [] stands
  | cons token rest =>
    rw [Reader.expect, bind_of_done (check_eq stands kind), Parser.expect, Parser.accept_cons]
    by_cases same : token.kind = kind
    · rw [if_pos (beq_iff_eq.mpr same), if_pos (List.mem_singleton.mpr same), advance_eq stands]
      exact .done stands.next
    · rw [beq_eq_false_iff_ne.mpr same, if_neg fun member => same (List.mem_singleton.mp member)]
      exact refused cursor (token :: rest) stands

theorem bindTest {test : Reader Bool} {other : Parser Bool} {yes no : Reader β} {accepted declined : Parser β}
    (tests : Follows ground test other) (first : Follows ground yes accepted) (second : Follows ground no declined) :
    Follows ground (test >>= fun b => if b then yes else no) (other >>= fun b => if b then accepted else declined) := by
  apply bind tests
  rintro (_ | _)
  · exact second
  · exact first

/-- The next token is looked at only where the list is full. -/
theorem checkCount (count : Nat) (defect : Defect) :
    Follows ground (checkCount count defect) (Parser.checkCount count defect) := by
  intro cursor rest stands
  unfold Reader.checkCount Parser.checkCount
  by_cases room : count < maxArguments
  · simp only [room, if_true]
    exact .done stands.arrives
  · simp only [room, if_false]
    exact bind peek (fun token => report token defect) cursor rest stands

theorem increment (sign : Token) : Follows ground (increment sign) (Parser.increment sign) :=
  bind (expect _ _) fun _ => succeed _

theorem noExpression : Follows ground (Reader.peek >>= noExpression) Parser.noExpression := by
  apply bind peek
  intro token
  unfold Reader.noExpression
  split
  · exact fail _ _
  · exact fail _ _

/-- The reader looks at the token that starts an expression before it takes it, the parser afterwards. -/
theorem primary {steps : Nat} (values : Follows ground (expression steps) (Parser.expression steps)) :
    Follows ground (primary (steps + 1)) (Parser.primary (steps + 1)) := by
  intro cursor rest stands
  have refused := noExpression cursor rest stands
  rw [bind_of_done (peek_eq stands)] at refused
  rw [Reader.primary, Parser.primary]
  cases rest with
  | nil =>
    -- The mark of an end starts no expression.
    have seen : Reader.peek cursor = .done ground.last cursor := peek_eq stands
    have ends : ground.last.kind = .eof := beq_iff_eq.mp ground.ends
    have atom : Parser.atom? ground.last = none := by simp [Parser.atom?, ends]
    rw [bind_of_done seen, Parser.accept_nil, atom, ends]
    exact refused
  | cons token rest =>
    have seen : Reader.peek cursor = .done token cursor := peek_eq stands
    rw [bind_of_done seen, Parser.accept_cons]
    cases found : Parser.atom? token with
    | some atom =>
      rw [if_pos (List.mem_cons_of_mem _ (atom?_starts found))]
      simp only [found]
      rw [bind_of_done (advance_eq stands)]
      exact .done stands.next
    | none =>
      by_cases opens : token.kind = .leftParen
      · have inner : Follows ground (enclosed (expression steps)) _ :=
          bind values fun inner => bind (expect _ _) fun _ => succeed _
        rw [if_pos (List.mem_cons.mpr (.inl opens)), opens]
        simp only [found]
        rw [if_pos (beq_self_eq_true _), bind_of_done (advance_eq stands)]
        exact (inner _ _ stands.next.toStands).next stands
      · have outside : token.kind ∉ .leftParen :: Parser.atomStarts := by
          intro member
          obtain ⟨atom, one⟩ := Parser.atom?_isSome ((List.mem_cons.mp member).resolve_left opens)
          simp [found] at one
        rw [if_neg outside]
        simp only
        rw [beq_eq_false_iff_ne.mpr opens]
        exact refused

end Follows

structure ExpressionsFollow (ground : Ground) (steps : Nat) : Prop where
  expression : Follows ground (expression steps) (Parser.expression steps)
  ternary : Follows ground (ternary steps) (Parser.ternary steps)
  binary : ∀ levels, Follows ground (binary levels steps) (Parser.binary levels steps)
  operands : ∀ level tighter left,
    Follows ground (operands level tighter left steps) (Parser.operands level tighter left steps)
  unary : Follows ground (unary steps) (Parser.unary steps)
  calls : ∀ callee, Follows ground (calls callee steps) (Parser.calls callee steps)
  argumentList : Follows ground (argumentList steps) (Parser.argumentList steps)
  furtherArguments : ∀ count, Follows ground (furtherArguments count steps) (Parser.furtherArguments count steps)
  primary : Follows ground (primary steps) (Parser.primary steps)

theorem expressionsFollow_zero : ExpressionsFollow ground 0 := by
  constructor
  case binary => rintro (_ | ⟨level, tighter⟩) <;> exact .outOfSteps
  all_goals intros; exact .outOfSteps

theorem expressionsFollow (ground : Ground) (steps : Nat) : ExpressionsFollow ground steps := by
  induction steps with
  | zero => exact expressionsFollow_zero
  | succ steps ih =>
    constructor
    case expression =>
      unfold Reader.expression Parser.expression
      refine .bind ih.ternary fun left => ?_
      refine .bindAccept _ (.succeed left) fun sign => ?_
      refine .bind ih.expression fun value => ?_
      cases left with
      | name target => exact .succeed _
      | _ => exact .bind (.report _ _) fun _ => .succeed _
    case ternary =>
      unfold Reader.ternary Parser.ternary
      refine .bind (ih.binary _) fun condition => ?_
      refine .bindAccept _ (.succeed condition) fun _ => ?_
      refine .bind ih.ternary fun first => ?_
      refine .bind (.expect _ _) fun _ => ?_
      exact .bind ih.ternary fun second => .succeed _
    case binary =>
      intro levels
      cases levels with
      | nil => exact ih.unary
      | cons level tighter => exact .bind (ih.binary tighter) fun left => ih.operands level tighter left
    case operands =>
      intro level tighter left
      refine .bindAccept _ (.succeed left) fun operator => ?_
      exact .bind (ih.binary tighter) fun right => ih.operands level tighter _
    case unary =>
      unfold Reader.unary Parser.unary
      refine .ifAccepted (fun sign kind => ?_) (.ifAccepted (fun sign kind => ?_) (.acceptNone ?_))
      · have twice : (sign.kind == .plusPlus || sign.kind == .minusMinus) = true := by simpa using kind
        simp only [twice, if_true]
        exact .increment sign
      · have once : (sign.kind == .plusPlus || sign.kind == .minusMinus) = false := by
          simp only [List.mem_cons, List.not_mem_nil, or_false] at kind
          rcases kind with kind | kind <;> rw [kind] <;> rfl
        simp only [once, Bool.false_eq_true, if_false]
        exact .bind ih.unary fun _ => .succeed _
      · exact .bind ih.primary fun callee => ih.calls callee
    case calls =>
      intro callee
      refine .bindAccept _ (.succeed callee) fun _ => ?_
      refine .bind ih.argumentList fun found => ?_
      exact .bind (.expect _ _) fun paren => ih.calls _
    case argumentList => exact .bindTest (.check _) (.succeed []) (ih.furtherArguments 0)
    case furtherArguments =>
      intro count
      refine .bind (.checkCount count _) fun _ => ?_
      refine .bind ih.expression fun argument => ?_
      refine .bindAccept _ (.succeed _) fun _ => ?_
      exact .bind (ih.furtherArguments (count + 1)) fun _ => .succeed _
    case primary => exact .primary ih.expression

section

variable {cursor : Cursor} {token : Token} {rest : List Token}

theorem closesBlock_end (stands : cursor.Stands ground []) : closesBlock cursor = .done false cursor := by
  unfold closesBlock
  split
  · exact check_end stands _
  · rfl

theorem closesBlock_eq (stands : cursor.Stands ground (token :: rest)) :
    closesBlock cursor = .done (Parser.closesBlock ground.nested token) cursor := by
  rw [Parser.closesBlock, ← stands.nested]
  unfold closesBlock
  split
  next inside => rw [check_eq stands, decide_eq_true inside, Bool.true_and]
  next outside => rw [decide_eq_false outside, Bool.false_and]

/-- Tokens are dropped one by one, so more steps than there are tokens are enough for that. -/
theorem dropBraces_agrees (depth : Nat) {steps : Nat} (stands : cursor.Stands ground rest) (enough : rest.length < steps) :
    (dropBraces depth steps cursor).Agrees ground cursor (.done () [] (Parser.dropBraces depth rest)) := by
  induction rest generalizing depth steps cursor with
  | nil =>
    cases depth with
    | zero =>
      rw [dropBraces]
      exact .done stands.arrives
    | succ depth =>
      obtain ⟨steps, rfl⟩ : ∃ fewer, steps = fewer + 1 := ⟨steps - 1, by omega⟩
      rw [dropBraces, bind_of_done (atEnd_eq stands)]
      exact .done stands.arrives
  | cons token rest ih =>
    cases depth with
    | zero =>
      rw [dropBraces]
      exact .done stands.arrives
    | succ depth =>
      obtain ⟨steps, rfl⟩ : ∃ fewer, steps = fewer + 1 := ⟨steps - 1, by omega⟩
      have goesOn := fun depth => ih depth stands.next.toStands (Nat.lt_of_succ_lt_succ enough)
      rw [dropBraces, bind_of_done (atEnd_eq stands), Parser.dropBraces]
      change Read.Agrees ground cursor ((advance >>= _ : Reader Unit) cursor) _
      rw [bind_of_done (advance_eq stands)]
      split
      · exact (goesOn (depth + 2)).next stands
      · split
        · exact (goesOn depth).next stands
        · exact (goesOn (depth + 1)).next stands

theorem resume_agrees {before : Token} {steps : Nat} (stands : cursor.Stands ground rest)
    (seen : previous cursor = .done before cursor) (enough : rest.length < steps) :
    (resume steps cursor).Agrees ground cursor (.done () [] (Parser.resume ground.nested before rest)) := by
  induction rest generalizing before steps cursor with
  | nil =>
    obtain ⟨steps, rfl⟩ : ∃ fewer, steps = fewer + 1 := ⟨steps - 1, by omega⟩
    rw [resume, bind_of_done (atEnd_eq stands)]
    exact .done stands.arrives
  | cons token rest ih =>
    obtain ⟨steps, rfl⟩ : ∃ fewer, steps = fewer + 1 := ⟨steps - 1, by omega⟩
    have goesOn := ih stands.next.toStands (previous_next stands) (Nat.lt_of_succ_lt_succ enough)
    rw [resume, bind_of_done (atEnd_eq stands), Parser.resume]
    -- Each test has a known answer here, and `change` goes to the branch that it leads to.
    change Read.Agrees ground cursor ((closesBlock >>= _ : Reader Unit) cursor) _
    rw [bind_of_done (closesBlock_eq stands)]
    cases Parser.closesBlock ground.nested token with
    | true => exact .done stands.arrives
    | false =>
      change Read.Agrees ground cursor ((previous >>= _ : Reader Unit) cursor) _
      rw [bind_of_done seen]
      cases before.kind == .semicolon with
      | true => exact .done stands.arrives
      | false =>
        change Read.Agrees ground cursor ((peek >>= _ : Reader Unit) cursor) _
        rw [bind_of_done (peek_eq stands), List.headD_cons]
        cases Parser.statementStarts.contains token.kind with
        | true => exact .done stands.arrives
        | false =>
          change Read.Agrees ground cursor ((advance >>= _ : Reader Unit) cursor) _
          rw [bind_of_done (advance_eq stands)]
          exact goesOn.next stands

/-- Recovery looks back at the token that was taken last, so there must be one when all tokens are used up. -/
theorem synchronize_agrees (stands : cursor.Stands ground rest) (taken : rest = [] → 0 < cursor.current) :
    (synchronize cursor).Agrees ground cursor (.done () [] (Parser.synchronize ground.nested rest)) := by
  have size := stands.size
  unfold synchronize
  cases rest with
  | nil =>
    obtain ⟨token, stays⟩ := advance_end stands (taken rfl)
    rw [bind_of_done (closesBlock_end stands)]
    change Read.Agrees ground cursor ((advance >>= _ : Reader Unit) cursor) _
    rw [bind_of_done stays]
    obtain ⟨steps, more⟩ : ∃ fewer, cursor.tokens.size = fewer + 1 := ⟨cursor.tokens.size - 1, by omega⟩
    rw [eachToken, more, resume, bind_of_done (atEnd_eq stands)]
    exact .done stands.arrives
  | cons token rest =>
    rw [bind_of_done (closesBlock_eq stands), Parser.synchronize]
    cases Parser.closesBlock ground.nested token with
    | true => exact .done stands.arrives
    | false =>
      change Read.Agrees ground cursor ((advance >>= _ : Reader Unit) cursor) _
      rw [bind_of_done (advance_eq stands)]
      have enough : rest.length < cursor.next.tokens.size := by
        rw [stands.next.tokens]
        simp only [List.length_cons] at size
        omega
      exact (resume_agrees stands.next.toStands (previous_next stands) enough).next stands

theorem recover_agrees {reader : Reader (Option Stmt)} {parser : Parser (Option Stmt)}
    (follows : Follows ground reader parser) (stands : cursor.Stands ground (token :: rest)) :
    (recover reader cursor).Agrees ground cursor (Parser.recover ground.nested parser ground.last (token :: rest)) := by
  have agrees := follows cursor (token :: rest) stands
  unfold recover Parser.recover
  generalize reader cursor = read at agrees ⊢
  generalize parser ground.last (token :: rest) = parsed at agrees ⊢
  cases agrees with
  | done arrives => exact .done arrives
  | exhausted => exact .exhausted
  | @failed errors left after arrives =>
    -- There was a token to read, so a declaration that failed at the end has taken it.
    have taken : left = [] → 0 < after.current := by
      rintro rfl
      have before := stands.size
      have behind := arrives.toStands.size
      rw [arrives.tokens] at behind
      simp only [List.length_cons, List.length_nil] at before behind
      omega
    obtain ⟨final, resumed, arrived⟩ := (synchronize_agrees arrives.toStands taken).of_done
    have whole := arrives.trans arrived
    rw [List.append_nil] at whole
    dsimp only
    rw [bind_of_done resumed]
    exact .done whole

theorem declarationsEnd_end (stands : cursor.Stands ground []) :
    declarationsEnd ground.nested cursor = .done true cursor := by
  unfold declarationsEnd
  split
  · rw [bind_of_done (check_end stands _)]
    exact atEnd_eq stands
  · exact atEnd_eq stands

theorem declarationsEnd_eq (stands : cursor.Stands ground (token :: rest)) :
    declarationsEnd ground.nested cursor = .done (Parser.closesBlock ground.nested token) cursor := by
  rw [Parser.closesBlock]
  cases ground.nested with
  | false => exact atEnd_eq stands
  | true =>
    change (check .rightBrace >>= _ : Reader Bool) cursor = _
    rw [bind_of_done (check_eq stands _), Bool.true_and]
    cases token.kind == .rightBrace with
    | true => rfl
    | false => exact atEnd_eq stands

end

namespace Follows

theorem skipBraces :
    Follows ground (eachToken (dropBraces 1)) Parser.skipBraces := by
  intro cursor rest stands
  have size := stands.size
  exact dropBraces_agrees 1 stands (by omega)

theorem skipClass (word : Token) : Follows ground (skipClass word) (Parser.skipClass word) := by
  refine bind (report _ _) fun _ => ?_
  refine bindAccept _ ?_ fun _ => ?_
  all_goals exact bindAccept _ (succeed ()) fun _ => skipBraces

section

variable {value : Reader Expr} {other : Parser Expr} (values : Follows ground value other)
include values

theorem initializer : Follows ground (initializer value) (Parser.initializer other) :=
  bindAccept _ (succeed none) fun _ => bind values fun _ => succeed _

theorem variableDeclaration : Follows ground (variableDeclaration value) (Parser.variableDeclaration other) := by
  refine bind (expect _ _) fun name => bind (initializer values) fun initial => ?_
  exact bind (expect _ _) fun _ => succeed _

theorem expressionStatement : Follows ground (expressionStatement value) (Parser.expressionStatement other) :=
  bind values fun _ => bind (expect _ _) fun _ => succeed _

theorem optionalBefore (closer : TokenKind) :
    Follows ground (optionalBefore closer value) (Parser.optionalBefore closer other) :=
  bindTest (check closer) (succeed none) (bind values fun _ => succeed _)

theorem returnStatement (word : Token) : Follows ground (returnStatement word value) (Parser.returnStatement word other) :=
  bind (optionalBefore values _) fun _ => bind (expect _ _) fun _ => succeed _

theorem forInitializer : Follows ground (forInitializer value) (Parser.forInitializer other) := by
  refine ifAccepted (fun token kind => ?_) (ifAccepted (fun token kind => ?_) (acceptNone ?_))
  · dsimp only
    rw [List.mem_singleton.mp kind]
    exact succeed none
  · dsimp only
    rw [List.mem_singleton.mp kind]
    exact bind (variableDeclaration values) fun _ => succeed _
  · exact bind (expressionStatement values) fun _ => succeed _

variable {body : Reader Stmt} {block : Parser Stmt} (bodies : Follows ground body block)
include bodies

theorem ifStatement (word : Token) : Follows ground (ifStatement word value body) (Parser.ifStatement word other block) := by
  refine bind (expect _ _) fun _ => bind values fun condition => bind (expect _ _) fun _ => bind bodies fun consequence => ?_
  exact bindAccept _ (succeed _) fun _ => bind bodies fun _ => succeed _

theorem whileStatement (word : Token) :
    Follows ground (whileStatement word value body) (Parser.whileStatement word other block) :=
  bind (expect _ _) fun _ => bind values fun _ => bind (expect _ _) fun _ => bind bodies fun _ => succeed _

theorem forStatement (word : Token) : Follows ground (forStatement word value body) (Parser.forStatement word other block) := by
  refine bind (expect _ _) fun _ => bind (forInitializer values) fun initial => ?_
  refine bind (optionalBefore values _) fun condition => bind (expect _ _) fun _ => ?_
  refine bind (optionalBefore values _) fun increment => bind (expect _ _) fun _ => ?_
  exact bind bodies fun _ => succeed _

end

theorem furtherParameters (count steps : Nat) :
    Follows ground (furtherParameters count steps) (Parser.furtherParameters count steps) := by
  induction steps generalizing count with
  | zero => exact outOfSteps
  | succ steps ih =>
    refine bind (checkCount count _) fun _ => bind (expect _ _) fun parameter => ?_
    exact bindAccept _ (succeed _) fun _ => bind (ih (count + 1)) fun _ => succeed _

section

variable {declarations : Reader (List Stmt)} {others : Parser (List Stmt)}
  (declared : Follows ground.within declarations others)
include declared

/-- The count of open blocks is one more inside and the same as before behind the block. -/
theorem block : Follows ground (block declarations) (Parser.closedBlock others) := by
  have closed : Follows ground.within
      (declarations >>= fun body => Reader.expect .rightBrace (.expected .braceAfterBlock) >>= fun _ => pure body)
      (Parser.closedBlock others) :=
    bind declared fun body => bind (expect _ _) fun _ => succeed body
  intro cursor rest stands
  -- One more block is open inside, whether the outer ones make `nested` true or not.
  have agrees := closed _ rest stands.enter
  unfold Reader.block inBlock
  generalize (declarations >>= _ : Reader (List Stmt)) _ = read at agrees ⊢
  change Read.Agrees _ _ _ (Parser.closedBlock others ground.last rest) at agrees
  generalize Parser.closedBlock others ground.last rest = parsed at agrees ⊢
  cases agrees with
  | done arrives => exact .done (arrives.leave stands)
  | failed arrives => exact .failed (arrives.leave stands)
  | exhausted => exact .exhausted

theorem functionDeclaration (steps : Nat) :
    Follows ground (functionDeclaration steps declarations) (Parser.functionDeclaration steps others) := by
  refine bind (expect _ _) fun name => bind (expect _ _) fun _ => ?_
  refine bind (bindTest (check _) (succeed []) (furtherParameters 0 steps)) fun parameters => ?_
  refine bind (expect _ _) fun _ => bind (expect _ _) fun _ => ?_
  exact bind (block declared) fun _ => succeed _

theorem plainDeclaration (steps : Nat) {value : Reader Expr} {other : Parser Expr} (values : Follows ground value other)
    {body : Reader Stmt} {statement : Parser Stmt} (bodies : Follows ground body statement) :
    Follows ground (plainDeclaration steps value body declarations)
      (Parser.plainDeclaration steps other statement others) := by
  refine ifAccepted (fun word kind => ?_) (ifAccepted (fun word kind => ?_) (ifAccepted (fun word kind => ?_)
    (acceptNone (bind bodies fun _ => succeed _))))
  all_goals dsimp only; rw [List.mem_singleton.mp kind]
  · exact bind (variableDeclaration values) fun _ => succeed _
  · exact bind (functionDeclaration declared steps) fun _ => succeed _
  · exact bind (skipClass word) fun _ => succeed _

end

end Follows

/-- The rules for statements, each beside its parser. A declaration is only read where there is a token. -/
structure StatementsFollow (steps : Nat) : Prop where
  statement : ∀ ground, Follows ground (statement steps) (Parser.statement steps)
  declaration : ∀ ground cursor token rest, cursor.Stands ground (token :: rest) →
    (declaration steps cursor).Agrees ground cursor (Parser.declaration ground.nested steps ground.last (token :: rest))
  declarations : ∀ ground, Follows ground (declarations ground.nested steps) (Parser.declarations ground.nested steps)

theorem statementsFollow (steps : Nat) : StatementsFollow steps := by
  induction steps with
  | zero => exact ⟨fun _ => .outOfSteps, fun _ _ _ _ _ => .exhausted, fun _ => .outOfSteps⟩
  | succ steps ih =>
    constructor
    case statement =>
      intro ground
      have values := (expressionsFollow ground steps).expression
      unfold Reader.statement Parser.statement
      refine .ifAccepted (fun word kind => ?_) (.ifAccepted (fun word kind => ?_) (.ifAccepted (fun word kind => ?_)
        (.ifAccepted (fun word kind => ?_) (.ifAccepted (fun word kind => ?_) (.ifAccepted (fun word kind => ?_)
          (.ifAccepted (fun word kind => ?_) (.acceptNone (.expressionStatement values))))))))
      all_goals dsimp only; rw [List.mem_singleton.mp kind]
      · exact .forStatement values (ih.statement ground) word
      · exact .ifStatement values (ih.statement ground) word
      · exact .whileStatement values (ih.statement ground) word
      · exact .bind (.block (ih.declarations ground.within)) fun _ => .succeed _
      · exact .bind (.expect _ _) fun _ => .succeed _
      · exact .bind (.expect _ _) fun _ => .succeed _
      · exact .returnStatement values word
    case declaration =>
      intro ground cursor token rest stands
      have values := (expressionsFollow ground steps).expression
      have follows := Follows.plainDeclaration (ih.declarations ground.within) steps values (ih.statement ground)
      exact recover_agrees follows stands
    case declarations =>
      intro ground cursor rest stands
      rw [Reader.declarations]
      cases rest with
      | nil =>
        rw [bind_of_done (declarationsEnd_end stands), Parser.declarations_nil]
        exact .done stands.arrives
      | cons token rest =>
        rw [bind_of_done (declarationsEnd_eq stands), Parser.declarations_cons]
        cases Parser.closesBlock ground.nested token with
        | true => exact .done stands.arrives
        | false =>
          refine agrees_bind (ih.declaration ground cursor token rest stands) fun first => ?_
          exact .bind (ih.declarations ground) fun _ => .succeed _

end Reader
end Treewalk
