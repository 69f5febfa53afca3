import Treewalk.Proofs.ParserSteps

/-! Readings without errors. For each rule this says once what it takes off the front of the tokens
when it has nothing to report, so that later proofs need not look into the rules. -/

namespace Treewalk.Parser

/-- The parser reads a value off the front of the tokens and reports nothing. -/
def Reads {α : Type} (parser : Parser α) (last : Token) (tokens : List Token) (value : α)
    (rest : List Token) : Prop :=
  parser last tokens = .done value [] rest

def StartsWith (kinds : List TokenKind) (tokens : List Token) : Prop :=
  ∃ token rest, tokens = token :: rest ∧ token.kind ∈ kinds

section Parts

variable {α β : Type} {last : Token} {tokens rest : List Token}

theorem reads_succeed {value result : α} :
    Reads (pure result) last tokens value rest ↔ value = result ∧ rest = tokens := by
  change Parsed.done result [] tokens = .done value [] rest ↔ _
  simp [eq_comm]

theorem reads_bind {parser : Parser α} {next : α → Parser β} {value : β} :
    Reads (parser >>= next) last tokens value rest ↔
      ∃ first left, Reads parser last tokens first left ∧ Reads (next first) last left value rest := by
  change andThen parser next last tokens = .done value [] rest ↔ _
  unfold andThen Reads
  cases parser last tokens with
  | exhausted => simp
  | failed errors left => simp
  | done first errors left =>
    dsimp only
    cases outcome : next first last left with
    | exhausted => simp_all [Parsed.reportedAfter]
    | failed more behind => simp_all [Parsed.reportedAfter]
    | done result more behind =>
      simp only [Parsed.reportedAfter, Parsed.done.injEq, List.append_eq_nil_iff]
      constructor
      · intro found
        obtain ⟨rfl, ⟨rfl, rfl⟩, rfl⟩ := found
        exact ⟨first, left, ⟨rfl, rfl, rfl⟩, by rw [outcome]⟩
      · intro found
        obtain ⟨_, _, ⟨rfl, rfl, rfl⟩, read⟩ := found
        rw [outcome] at read
        cases read
        exact ⟨rfl, ⟨rfl, rfl⟩, rfl⟩

theorem reads_outOfSteps {value : α} : ¬ Reads outOfSteps last tokens value rest := by
  intro read
  cases read

theorem reads_fail {token : Token} {defect : Defect} {value : α} :
    ¬ Reads (fail token defect) last tokens value rest := by
  intro read
  cases read

theorem reads_report {token : Token} {defect : Defect} {value : Unit} :
    ¬ Reads (report token defect) last tokens value rest := by
  intro read
  cases read

theorem reads_peek {token : Token} :
    Reads peek last tokens token rest ↔ token = tokens.headD last ∧ rest = tokens := by
  change Parsed.done (tokens.headD last) [] tokens = .done token [] rest ↔ _
  simp [eq_comm]

theorem reads_accept {kinds : List TokenKind} {found : Option Token} :
    Reads (accept kinds) last tokens found rest ↔
      (found = none ∧ rest = tokens ∧ ¬ StartsWith kinds tokens) ∨
      ∃ token, found = some token ∧ tokens = token :: rest ∧ token.kind ∈ kinds := by
  unfold Reads accept StartsWith
  cases tokens with
  | nil => simp [eq_comm]
  | cons token left =>
    by_cases member : token.kind ∈ kinds
    · simp [member, eq_comm]
    · simp [member, eq_comm]

theorem reads_bindAccept {kinds : List TokenKind} {next : Option Token → Parser β} {value : β} :
    Reads (accept kinds >>= next) last tokens value rest ↔
      (¬ StartsWith kinds tokens ∧ Reads (next none) last tokens value rest) ∨
      ∃ token left, tokens = token :: left ∧ token.kind ∈ kinds ∧ Reads (next (some token)) last left value rest := by
  rw [reads_bind]
  constructor
  · intro found
    obtain ⟨found, left, accepted, read⟩ := found
    rcases reads_accept.mp accepted with ⟨rfl, rfl, stops⟩ | ⟨token, rfl, rfl, member⟩
    · exact .inl ⟨stops, read⟩
    · exact .inr ⟨token, left, rfl, member, read⟩
  · intro found
    rcases found with ⟨stops, read⟩ | ⟨token, left, rfl, member, read⟩
    · exact ⟨none, tokens, reads_accept.mpr (.inl ⟨rfl, rfl, stops⟩), read⟩
    · exact ⟨some token, left, reads_accept.mpr (.inr ⟨token, rfl, rfl, member⟩), read⟩

theorem reads_expect {kind : TokenKind} {defect : Defect} {token : Token} :
    Reads (expect kind defect) last tokens token rest ↔ tokens = token :: rest ∧ token.kind = kind := by
  unfold expect
  rw [reads_bindAccept]
  constructor
  · intro found
    rcases found with ⟨_, read⟩ | ⟨found, left, rfl, member, read⟩
    · obtain ⟨_, _, _, failed⟩ := reads_bind.mp read
      exact absurd failed reads_fail
    · obtain ⟨rfl, rfl⟩ := reads_succeed.mp read
      exact ⟨rfl, List.mem_singleton.mp member⟩
  · intro found
    obtain ⟨rfl, same⟩ := found
    exact .inr ⟨token, rest, rfl, List.mem_singleton.mpr same, reads_succeed.mpr ⟨rfl, rfl⟩⟩

theorem reads_bindExpect {kind : TokenKind} {defect : Defect} {next : Token → Parser β} {value : β} :
    Reads (expect kind defect >>= next) last tokens value rest ↔
      ∃ token left, tokens = token :: left ∧ token.kind = kind ∧ Reads (next token) last left value rest := by
  simp only [reads_bind, reads_expect]
  constructor
  · intro found
    obtain ⟨token, left, ⟨rfl, same⟩, read⟩ := found
    exact ⟨token, left, rfl, same, read⟩
  · intro found
    obtain ⟨token, left, rfl, same, read⟩ := found
    exact ⟨token, left, ⟨rfl, same⟩, read⟩

theorem reads_nextIs {kinds : List TokenKind} {answer : Bool} :
    Reads (nextIs kinds) last tokens answer rest ↔ rest = tokens ∧ (answer = true ↔ StartsWith kinds tokens) := by
  unfold Reads nextIs StartsWith
  cases tokens with
  | nil => simp [eq_comm, and_comm]
  | cons token left =>
    by_cases member : token.kind ∈ kinds <;> cases answer <;> simp [member, eq_comm]

theorem reads_bindNextIs {kinds : List TokenKind} {yes no : Parser β} {value : β} :
    Reads (nextIs kinds >>= fun b => if b then yes else no) last tokens value rest ↔
      (StartsWith kinds tokens ∧ Reads yes last tokens value rest) ∨
      (¬ StartsWith kinds tokens ∧ Reads no last tokens value rest) := by
  rw [reads_bind]
  constructor
  · intro found
    obtain ⟨answer, left, tested, read⟩ := found
    obtain ⟨rfl, same⟩ := reads_nextIs.mp tested
    cases answer
    · exact .inr ⟨fun starts => Bool.noConfusion (same.mpr starts), read⟩
    · exact .inl ⟨same.mp rfl, read⟩
  · intro found
    rcases found with ⟨starts, read⟩ | ⟨stops, read⟩
    · exact ⟨true, tokens, reads_nextIs.mpr ⟨rfl, by simp [starts]⟩, read⟩
    · exact ⟨false, tokens, reads_nextIs.mpr ⟨rfl, by simp [stops]⟩, read⟩

theorem reads_checkCount {count : Nat} {defect : Defect} {value : Unit} :
    Reads (checkCount count defect) last tokens value rest ↔ rest = tokens ∧ count < maxArguments := by
  unfold checkCount
  rw [reads_bind]
  constructor
  · intro found
    obtain ⟨token, left, peeked, read⟩ := found
    obtain ⟨rfl, rfl⟩ := reads_peek.mp peeked
    split at read
    · exact ⟨(reads_succeed.mp read).2, ‹_›⟩
    · exact absurd read reads_report
  · intro found
    obtain ⟨rfl, few⟩ := found
    refine ⟨_, rest, reads_peek.mpr ⟨rfl, rfl⟩, ?_⟩
    rw [if_pos few]
    exact reads_succeed.mpr ⟨rfl, rfl⟩

end Parts

section Expressions

variable {steps : Nat} {last : Token} {tokens rest : List Token} {expr : Expr}

theorem reads_expression : Reads (expression (steps + 1)) last tokens expr rest ↔
    ∃ left behind, Reads (ternary steps) last tokens left behind ∧
      ((¬ StartsWith assignmentSigns behind ∧ expr = left ∧ rest = behind) ∨
        ∃ target sign after value, left = .name target ∧ behind = sign :: after ∧ sign.kind ∈ assignmentSigns ∧
          Reads (expression steps) last after value rest ∧
          expr = .assign target (assignedValue target sign value)) := by
  rw [expression, reads_bind]
  apply exists_congr
  intro left
  apply exists_congr
  intro behind
  apply and_congr Iff.rfl
  rw [reads_bindAccept]
  constructor
  · intro found
    rcases found with ⟨stops, read⟩ | ⟨sign, after, rfl, member, read⟩
    · exact .inl ⟨stops, reads_succeed.mp read⟩
    · obtain ⟨value, _, assigned, final⟩ := reads_bind.mp read
      split at final
      · obtain ⟨rfl, rfl⟩ := reads_succeed.mp final
        exact .inr ⟨_, sign, after, value, rfl, rfl, member, assigned, rfl⟩
      · obtain ⟨_, _, reported, _⟩ := reads_bind.mp final
        exact absurd reported reads_report
  · intro found
    rcases found with ⟨stops, same⟩ | ⟨target, sign, after, value, rfl, rfl, member, assigned, rfl⟩
    · exact .inl ⟨stops, reads_succeed.mpr same⟩
    · exact .inr ⟨sign, after, rfl, member, reads_bind.mpr ⟨value, rest, assigned, reads_succeed.mpr ⟨rfl, rfl⟩⟩⟩

theorem reads_ternary : Reads (ternary (steps + 1)) last tokens expr rest ↔
    ∃ condition behind, Reads (binary levels steps) last tokens condition behind ∧
      ((¬ StartsWith [.question] behind ∧ expr = condition ∧ rest = behind) ∨
        ∃ mark after first divider later second, behind = mark :: after ∧ mark.kind = .question ∧
          Reads (ternary steps) last after first (divider :: later) ∧ divider.kind = .colon ∧
          Reads (ternary steps) last later second rest ∧ expr = .ternary condition first second) := by
  rw [ternary, reads_bind]
  apply exists_congr
  intro condition
  apply exists_congr
  intro behind
  apply and_congr Iff.rfl
  rw [reads_bindAccept]
  constructor
  · intro found
    rcases found with ⟨stops, read⟩ | ⟨mark, after, rfl, member, read⟩
    · exact .inl ⟨stops, reads_succeed.mp read⟩
    · obtain ⟨first, _, one, read⟩ := reads_bind.mp read
      obtain ⟨divider, later, rfl, between, read⟩ := reads_bindExpect.mp read
      obtain ⟨second, _, two, read⟩ := reads_bind.mp read
      obtain ⟨rfl, rfl⟩ := reads_succeed.mp read
      exact .inr ⟨mark, after, first, divider, later, second, rfl, List.mem_singleton.mp member, one, between, two, rfl⟩
  · intro found
    rcases found with ⟨stops, same⟩ | ⟨mark, after, first, divider, later, second, rfl, kind, one, between, two, rfl⟩
    · exact .inl ⟨stops, reads_succeed.mpr same⟩
    · refine .inr ⟨mark, after, rfl, List.mem_singleton.mpr kind, reads_bind.mpr ⟨first, _, one, ?_⟩⟩
      refine reads_bindExpect.mpr ⟨divider, later, rfl, between, reads_bind.mpr ⟨second, rest, two, ?_⟩⟩
      exact reads_succeed.mpr ⟨rfl, rfl⟩

theorem reads_binary_nil :
    Reads (binary [] (steps + 1)) last tokens expr rest ↔ Reads (unary steps) last tokens expr rest := by
  rw [binary]

theorem reads_binary_cons {level : Level} {tighter : List Level} :
    Reads (binary (level :: tighter) (steps + 1)) last tokens expr rest ↔
      ∃ left behind, Reads (binary tighter steps) last tokens left behind ∧
        Reads (operands level tighter left steps) last behind expr rest := by
  rw [binary, reads_bind]

theorem reads_operands {level : Level} {tighter : List Level} {left : Expr} :
    Reads (operands level tighter left (steps + 1)) last tokens expr rest ↔
      (¬ StartsWith level.operators tokens ∧ expr = left ∧ rest = tokens) ∨
      ∃ operator after right behind, tokens = operator :: after ∧ operator.kind ∈ level.operators ∧
        Reads (binary tighter steps) last after right behind ∧
        Reads (operands level tighter (level.node left operator right) steps) last behind expr rest := by
  rw [operands, reads_bindAccept]
  simp only [reads_bind, reads_succeed]
  constructor
  · intro found
    rcases found with stops | ⟨operator, after, rfl, member, right, behind, one, more⟩
    · exact .inl stops
    · exact .inr ⟨operator, after, right, behind, rfl, member, one, more⟩
  · intro found
    rcases found with stops | ⟨operator, after, right, behind, rfl, member, one, more⟩
    · exact .inl stops
    · exact .inr ⟨operator, after, rfl, member, right, behind, one, more⟩

def unarySigns : List TokenKind := [.plusPlus, .minusMinus, .bang, .minus]

theorem reads_increment {sign : Token} : Reads (increment sign) last tokens expr rest ↔
    ∃ target, tokens = target :: rest ∧ target.kind = .identifier ∧
      expr = .assign target (.binary (.name target)
        (.operatorAt (if sign.kind == .minusMinus then .minus else .plus) sign)
        (.literal (.number 1.0) sign.pos)) := by
  unfold increment
  simp only [reads_bindExpect, reads_succeed]
  constructor
  · intro found
    obtain ⟨target, _, rfl, same, rfl, rfl⟩ := found
    exact ⟨target, rfl, same, rfl⟩
  · intro found
    obtain ⟨target, rfl, same, rfl⟩ := found
    exact ⟨target, rest, rfl, same, rfl, rfl⟩

theorem reads_unary : Reads (unary (steps + 1)) last tokens expr rest ↔
    (¬ StartsWith unarySigns tokens ∧ ∃ callee behind, Reads (primary steps) last tokens callee behind ∧
      Reads (calls callee steps) last behind expr rest) ∨
    ∃ sign after, tokens = sign :: after ∧
      ((sign.kind = .plusPlus ∨ sign.kind = .minusMinus) ∧ Reads (increment sign) last after expr rest ∨
        (sign.kind = .bang ∨ sign.kind = .minus) ∧ ∃ operand, Reads (unary steps) last after operand rest ∧
          expr = .unary sign operand) := by
  rw [unary, reads_bindAccept]
  simp only [reads_bind]
  apply or_congr Iff.rfl
  apply exists_congr
  intro sign
  apply exists_congr
  intro after
  apply and_congr Iff.rfl
  simp only [List.mem_cons, List.not_mem_nil, or_false, Bool.or_eq_true, beq_iff_eq]
  constructor
  · intro found
    obtain ⟨member, read⟩ := found
    split at read
    next counts => exact .inl ⟨counts, read⟩
    next other =>
      obtain ⟨operand, _, one, final⟩ := reads_bind.mp read
      obtain ⟨rfl, rfl⟩ := reads_succeed.mp final
      exact .inr ⟨by tauto, operand, one, rfl⟩
  · intro found
    rcases found with ⟨counts, read⟩ | ⟨kind, operand, one, rfl⟩
    · exact ⟨by tauto, by rw [if_pos counts]; exact read⟩
    · have other : ¬ (sign.kind = .plusPlus ∨ sign.kind = .minusMinus) := by
        rcases kind with kind | kind <;> simp [kind]
      refine ⟨by tauto, ?_⟩
      rw [if_neg other]
      exact reads_bind.mpr ⟨operand, rest, one, reads_succeed.mpr ⟨rfl, rfl⟩⟩

theorem reads_calls {callee : Expr} : Reads (calls callee (steps + 1)) last tokens expr rest ↔
    (¬ StartsWith [.leftParen] tokens ∧ expr = callee ∧ rest = tokens) ∨
    ∃ opening after found closing behind, tokens = opening :: after ∧ opening.kind = .leftParen ∧
      Reads (argumentList steps) last after found (closing :: behind) ∧ closing.kind = .rightParen ∧
      Reads (calls (.call callee closing found) steps) last behind expr rest := by
  rw [calls, reads_bindAccept]
  constructor
  · intro found
    rcases found with ⟨stops, read⟩ | ⟨opening, after, rfl, member, read⟩
    · exact .inl ⟨stops, reads_succeed.mp read⟩
    · obtain ⟨found, _, listed, read⟩ := reads_bind.mp read
      obtain ⟨closing, behind, rfl, close, more⟩ := reads_bindExpect.mp read
      exact .inr ⟨opening, after, found, closing, behind, rfl, List.mem_singleton.mp member, listed, close, more⟩
  · intro found
    rcases found with ⟨stops, same⟩ | ⟨opening, after, found, closing, behind, rfl, kind, listed, close, more⟩
    · exact .inl ⟨stops, reads_succeed.mpr same⟩
    · refine .inr ⟨opening, after, rfl, List.mem_singleton.mpr kind, reads_bind.mpr ⟨found, _, listed, ?_⟩⟩
      exact reads_bindExpect.mpr ⟨closing, behind, rfl, close, more⟩

theorem reads_argumentList {found : List Expr} : Reads (argumentList (steps + 1)) last tokens found rest ↔
    (StartsWith [.rightParen] tokens ∧ found = [] ∧ rest = tokens) ∨
    (¬ StartsWith [.rightParen] tokens ∧ Reads (furtherArguments 0 steps) last tokens found rest) := by
  rw [argumentList, reads_bindNextIs, reads_succeed]

theorem reads_furtherArguments {count : Nat} {found : List Expr} :
    Reads (furtherArguments count (steps + 1)) last tokens found rest ↔
      count < maxArguments ∧ ∃ argument behind, Reads (expression steps) last tokens argument behind ∧
        ((¬ StartsWith [.comma] behind ∧ found = [argument] ∧ rest = behind) ∨
          ∃ mark after others, behind = mark :: after ∧ mark.kind = .comma ∧
            Reads (furtherArguments (count + 1) steps) last after others rest ∧ found = argument :: others) := by
  rw [furtherArguments, reads_bind]
  constructor
  · intro found
    obtain ⟨_, _, counted, read⟩ := found
    obtain ⟨rfl, few⟩ := reads_checkCount.mp counted
    obtain ⟨argument, behind, one, read⟩ := reads_bind.mp read
    refine ⟨few, argument, behind, one, ?_⟩
    rcases reads_bindAccept.mp read with ⟨stops, read⟩ | ⟨mark, after, rfl, member, read⟩
    · exact .inl ⟨stops, reads_succeed.mp read⟩
    · obtain ⟨others, _, more, read⟩ := reads_bind.mp read
      obtain ⟨rfl, rfl⟩ := reads_succeed.mp read
      exact .inr ⟨mark, after, others, rfl, List.mem_singleton.mp member, more, rfl⟩
  · intro found
    obtain ⟨few, argument, behind, one, other⟩ := found
    refine ⟨(), tokens, reads_checkCount.mpr ⟨rfl, few⟩, reads_bind.mpr ⟨argument, behind, one, ?_⟩⟩
    rcases other with ⟨stops, same⟩ | ⟨mark, after, others, rfl, kind, more, rfl⟩
    · exact reads_bindAccept.mpr (.inl ⟨stops, reads_succeed.mpr same⟩)
    · refine reads_bindAccept.mpr (.inr ⟨mark, after, rfl, List.mem_singleton.mpr kind, ?_⟩)
      exact reads_bind.mpr ⟨others, rest, more, reads_succeed.mpr ⟨rfl, rfl⟩⟩

theorem reads_noExpression : ¬ Reads noExpression last tokens expr rest := by
  intro read
  obtain ⟨token, _, _, failed⟩ := reads_bind.mp read
  split at failed
  all_goals exact reads_fail failed

theorem atom?_leftParen {token : Token} (kind : token.kind = .leftParen) : atom? token = none := by
  simp [atom?, kind]

theorem atom?_isSome {token : Token} (kind : token.kind ∈ atomStarts) : ∃ atom, atom? token = some atom := by
  simp only [atomStarts, List.mem_cons, List.not_mem_nil, or_false] at kind
  rcases kind with kind | kind | kind | kind | kind | kind <;> simp [atom?, kind]

theorem reads_primary : Reads (primary (steps + 1)) last tokens expr rest ↔
    ∃ token after, tokens = token :: after ∧
      ((token.kind ∈ atomStarts ∧ atom? token = some expr ∧ rest = after) ∨
        token.kind = .leftParen ∧ ∃ inner closing, Reads (expression steps) last after inner (closing :: rest) ∧
          closing.kind = .rightParen ∧ expr = .group inner) := by
  rw [primary, reads_bindAccept]
  constructor
  · intro found
    rcases found with ⟨_, read⟩ | ⟨token, after, rfl, member, read⟩
    · exact absurd read reads_noExpression
    · refine ⟨token, after, rfl, ?_⟩
      rcases List.mem_cons.mp member with kind | kind
      · simp only [atom?_leftParen kind] at read
        obtain ⟨inner, _, one, read⟩ := reads_bind.mp read
        obtain ⟨closing, _, rfl, close, read⟩ := reads_bindExpect.mp read
        obtain ⟨rfl, rfl⟩ := reads_succeed.mp read
        exact .inr ⟨kind, inner, closing, one, close, rfl⟩
      · obtain ⟨atom, found⟩ := atom?_isSome kind
        simp only [found, reads_succeed] at read
        obtain ⟨rfl, rfl⟩ := read
        exact .inl ⟨kind, found, rfl⟩
  · intro found
    obtain ⟨token, after, rfl, ⟨kind, found, rfl⟩ | ⟨kind, inner, closing, one, close, rfl⟩⟩ := found
    · refine .inr ⟨token, rest, rfl, List.mem_cons_of_mem _ kind, ?_⟩
      simp only [found]
      exact reads_succeed.mpr ⟨rfl, rfl⟩
    · refine .inr ⟨token, after, rfl, List.mem_cons.mpr (.inl kind), ?_⟩
      simp only [atom?_leftParen kind]
      refine reads_bind.mpr ⟨inner, _, one, reads_bindExpect.mpr ⟨closing, rest, rfl, close, ?_⟩⟩
      exact reads_succeed.mpr ⟨rfl, rfl⟩

end Expressions

section Statements

variable {steps : Nat} {last : Token} {tokens rest : List Token} {stmt : Stmt}
  {value : Parser Expr} {body : Parser Stmt} {declared : Parser (List Stmt)}

theorem reads_initializer {initial : Option Expr} : Reads (initializer value) last tokens initial rest ↔
    (¬ StartsWith [.assign] tokens ∧ initial = none ∧ rest = tokens) ∨
    ∃ sign after expr, tokens = sign :: after ∧ sign.kind = .assign ∧ Reads value last after expr rest ∧
      initial = some expr := by
  unfold initializer
  rw [reads_bindAccept]
  constructor
  · intro found
    rcases found with ⟨stops, read⟩ | ⟨sign, after, rfl, member, read⟩
    · exact .inl ⟨stops, reads_succeed.mp read⟩
    · obtain ⟨expr, _, one, read⟩ := reads_bind.mp read
      obtain ⟨rfl, rfl⟩ := reads_succeed.mp read
      exact .inr ⟨sign, after, expr, rfl, List.mem_singleton.mp member, one, rfl⟩
  · intro found
    rcases found with ⟨stops, same⟩ | ⟨sign, after, expr, rfl, kind, one, rfl⟩
    · exact .inl ⟨stops, reads_succeed.mpr same⟩
    · refine .inr ⟨sign, after, rfl, List.mem_singleton.mpr kind, ?_⟩
      exact reads_bind.mpr ⟨expr, rest, one, reads_succeed.mpr ⟨rfl, rfl⟩⟩

theorem reads_variableDeclaration : Reads (variableDeclaration value) last tokens stmt rest ↔
    ∃ name after initial closing, tokens = name :: after ∧ name.kind = .identifier ∧
      Reads (initializer value) last after initial (closing :: rest) ∧ closing.kind = .semicolon ∧
      stmt = .declare name initial := by
  unfold variableDeclaration
  constructor
  · intro read
    obtain ⟨name, after, rfl, kind, read⟩ := reads_bindExpect.mp read
    obtain ⟨initial, _, one, read⟩ := reads_bind.mp read
    obtain ⟨closing, _, rfl, close, read⟩ := reads_bindExpect.mp read
    obtain ⟨rfl, rfl⟩ := reads_succeed.mp read
    exact ⟨name, after, initial, closing, rfl, kind, one, close, rfl⟩
  · intro found
    obtain ⟨name, after, initial, closing, rfl, kind, one, close, rfl⟩ := found
    refine reads_bindExpect.mpr ⟨name, after, rfl, kind, reads_bind.mpr ⟨initial, _, one, ?_⟩⟩
    exact reads_bindExpect.mpr ⟨closing, rest, rfl, close, reads_succeed.mpr ⟨rfl, rfl⟩⟩

theorem reads_expressionStatement : Reads (expressionStatement value) last tokens stmt rest ↔
    ∃ expr closing, Reads value last tokens expr (closing :: rest) ∧ closing.kind = .semicolon ∧
      stmt = .expression expr := by
  unfold expressionStatement
  constructor
  · intro read
    obtain ⟨expr, _, one, read⟩ := reads_bind.mp read
    obtain ⟨closing, _, rfl, close, read⟩ := reads_bindExpect.mp read
    obtain ⟨rfl, rfl⟩ := reads_succeed.mp read
    exact ⟨expr, closing, one, close, rfl⟩
  · intro found
    obtain ⟨expr, closing, one, close, rfl⟩ := found
    refine reads_bind.mpr ⟨expr, _, one, ?_⟩
    exact reads_bindExpect.mpr ⟨closing, rest, rfl, close, reads_succeed.mpr ⟨rfl, rfl⟩⟩

theorem reads_optionalBefore {closer : TokenKind} {found : Option Expr} :
    Reads (optionalBefore closer value) last tokens found rest ↔
      (StartsWith [closer] tokens ∧ found = none ∧ rest = tokens) ∨
      (¬ StartsWith [closer] tokens ∧ ∃ expr, Reads value last tokens expr rest ∧ found = some expr) := by
  unfold optionalBefore
  rw [reads_bindNextIs, reads_succeed]
  apply or_congr Iff.rfl
  apply and_congr Iff.rfl
  constructor
  · intro read
    obtain ⟨expr, _, one, read⟩ := reads_bind.mp read
    obtain ⟨rfl, rfl⟩ := reads_succeed.mp read
    exact ⟨expr, one, rfl⟩
  · intro found
    obtain ⟨expr, one, rfl⟩ := found
    exact reads_bind.mpr ⟨expr, rest, one, reads_succeed.mpr ⟨rfl, rfl⟩⟩

theorem reads_returnStatement {word : Token} : Reads (returnStatement word value) last tokens stmt rest ↔
    ∃ result closing, Reads (optionalBefore .semicolon value) last tokens result (closing :: rest) ∧
      closing.kind = .semicolon ∧ stmt = .returnValue word result := by
  unfold returnStatement
  constructor
  · intro read
    obtain ⟨result, _, one, read⟩ := reads_bind.mp read
    obtain ⟨closing, _, rfl, close, read⟩ := reads_bindExpect.mp read
    obtain ⟨rfl, rfl⟩ := reads_succeed.mp read
    exact ⟨result, closing, one, close, rfl⟩
  · intro found
    obtain ⟨result, closing, one, close, rfl⟩ := found
    refine reads_bind.mpr ⟨result, _, one, ?_⟩
    exact reads_bindExpect.mpr ⟨closing, rest, rfl, close, reads_succeed.mpr ⟨rfl, rfl⟩⟩

theorem reads_ifStatement {word : Token} : Reads (ifStatement word value body) last tokens stmt rest ↔
    ∃ opening after condition closing behind consequence later, tokens = opening :: after ∧
      opening.kind = .leftParen ∧ Reads value last after condition (closing :: behind) ∧
      closing.kind = .rightParen ∧ Reads body last behind consequence later ∧
      ((¬ StartsWith [.elseWord] later ∧ rest = later ∧ stmt = .branch condition consequence none word.pos) ∨
        ∃ other following alternative, later = other :: following ∧ other.kind = .elseWord ∧
          Reads body last following alternative rest ∧
          stmt = .branch condition consequence (some alternative) word.pos) := by
  unfold ifStatement
  constructor
  · intro read
    obtain ⟨opening, after, rfl, mark, read⟩ := reads_bindExpect.mp read
    obtain ⟨condition, _, one, read⟩ := reads_bind.mp read
    obtain ⟨closing, behind, rfl, close, read⟩ := reads_bindExpect.mp read
    obtain ⟨consequence, later, two, read⟩ := reads_bind.mp read
    refine ⟨opening, after, condition, closing, behind, consequence, later, rfl, mark, one, close, two, ?_⟩
    rcases reads_bindAccept.mp read with ⟨stops, read⟩ | ⟨other, following, rfl, member, read⟩
    · obtain ⟨rfl, rfl⟩ := reads_succeed.mp read
      exact .inl ⟨stops, rfl, rfl⟩
    · obtain ⟨alternative, _, three, read⟩ := reads_bind.mp read
      obtain ⟨rfl, rfl⟩ := reads_succeed.mp read
      exact .inr ⟨other, following, alternative, rfl, List.mem_singleton.mp member, three, rfl⟩
  · intro found
    obtain ⟨opening, after, condition, closing, behind, consequence, later, rfl, mark, one, close, two, other⟩ := found
    refine reads_bindExpect.mpr ⟨opening, after, rfl, mark, reads_bind.mpr ⟨condition, _, one, ?_⟩⟩
    refine reads_bindExpect.mpr ⟨closing, behind, rfl, close, reads_bind.mpr ⟨consequence, later, two, ?_⟩⟩
    rcases other with ⟨stops, rfl, rfl⟩ | ⟨other, following, alternative, rfl, kind, three, rfl⟩
    · exact reads_bindAccept.mpr (.inl ⟨stops, reads_succeed.mpr ⟨rfl, rfl⟩⟩)
    · refine reads_bindAccept.mpr (.inr ⟨other, following, rfl, List.mem_singleton.mpr kind, ?_⟩)
      exact reads_bind.mpr ⟨alternative, rest, three, reads_succeed.mpr ⟨rfl, rfl⟩⟩

theorem reads_whileStatement {word : Token} : Reads (whileStatement word value body) last tokens stmt rest ↔
    ∃ opening after condition closing behind repeated, tokens = opening :: after ∧ opening.kind = .leftParen ∧
      Reads value last after condition (closing :: behind) ∧ closing.kind = .rightParen ∧
      Reads body last behind repeated rest ∧ stmt = .loop condition repeated none word.pos := by
  unfold whileStatement
  constructor
  · intro read
    obtain ⟨opening, after, rfl, mark, read⟩ := reads_bindExpect.mp read
    obtain ⟨condition, _, one, read⟩ := reads_bind.mp read
    obtain ⟨closing, behind, rfl, close, read⟩ := reads_bindExpect.mp read
    obtain ⟨repeated, _, two, read⟩ := reads_bind.mp read
    obtain ⟨rfl, rfl⟩ := reads_succeed.mp read
    exact ⟨opening, after, condition, closing, behind, repeated, rfl, mark, one, close, two, rfl⟩
  · intro found
    obtain ⟨opening, after, condition, closing, behind, repeated, rfl, mark, one, close, two, rfl⟩ := found
    refine reads_bindExpect.mpr ⟨opening, after, rfl, mark, reads_bind.mpr ⟨condition, _, one, ?_⟩⟩
    refine reads_bindExpect.mpr ⟨closing, behind, rfl, close, reads_bind.mpr ⟨repeated, rest, two, ?_⟩⟩
    exact reads_succeed.mpr ⟨rfl, rfl⟩

theorem reads_forInitializer {initial : Option Stmt} : Reads (forInitializer value) last tokens initial rest ↔
    (¬ StartsWith [.semicolon, .varWord] tokens ∧ ∃ first, Reads (expressionStatement value) last tokens first rest ∧
      initial = some first) ∨
    ∃ token after, tokens = token :: after ∧
      ((token.kind = .semicolon ∧ rest = after ∧ initial = none) ∨
        token.kind = .varWord ∧ ∃ first, Reads (variableDeclaration value) last after first rest ∧
          initial = some first) := by
  unfold forInitializer
  rw [reads_bindAccept]
  constructor
  · intro found
    rcases found with ⟨stops, read⟩ | ⟨token, after, rfl, member, read⟩
    · obtain ⟨first, _, one, read⟩ := reads_bind.mp read
      obtain ⟨rfl, rfl⟩ := reads_succeed.mp read
      exact .inl ⟨stops, first, one, rfl⟩
    · refine .inr ⟨token, after, rfl, ?_⟩
      simp only [beq_iff_eq] at read
      split at read
      next kind =>
        obtain ⟨first, _, one, read⟩ := reads_bind.mp read
        obtain ⟨rfl, rfl⟩ := reads_succeed.mp read
        exact .inr ⟨kind, first, one, rfl⟩
      next kind =>
        obtain ⟨rfl, rfl⟩ := reads_succeed.mp read
        simp only [List.mem_cons, kind, List.not_mem_nil, or_false] at member
        exact .inl ⟨member, rfl, rfl⟩
  · intro found
    rcases found with ⟨stops, first, one, rfl⟩ | ⟨token, after, rfl, ⟨kind, rfl, rfl⟩ | ⟨kind, first, one, rfl⟩⟩
    · exact .inl ⟨stops, reads_bind.mpr ⟨first, rest, one, reads_succeed.mpr ⟨rfl, rfl⟩⟩⟩
    · refine .inr ⟨token, rest, rfl, by simp [kind], ?_⟩
      simp only [kind]
      exact reads_succeed.mpr ⟨rfl, rfl⟩
    · refine .inr ⟨token, after, rfl, by simp [kind], ?_⟩
      simp only [kind]
      exact reads_bind.mpr ⟨first, rest, one, reads_succeed.mpr ⟨rfl, rfl⟩⟩

theorem reads_forStatement {word : Token} : Reads (forStatement word value body) last tokens stmt rest ↔
    ∃ opening after initial second condition middle third increment closing behind repeated,
      tokens = opening :: after ∧ opening.kind = .leftParen ∧
      Reads (forInitializer value) last after initial second ∧
      Reads (optionalBefore .semicolon value) last second condition (middle :: third) ∧
      middle.kind = .semicolon ∧
      Reads (optionalBefore .rightParen value) last third increment (closing :: behind) ∧
      closing.kind = .rightParen ∧ Reads body last behind repeated rest ∧
      stmt = forLoop word initial condition increment repeated := by
  unfold forStatement
  constructor
  · intro read
    obtain ⟨opening, after, rfl, mark, read⟩ := reads_bindExpect.mp read
    obtain ⟨initial, second, one, read⟩ := reads_bind.mp read
    obtain ⟨condition, _, two, read⟩ := reads_bind.mp read
    obtain ⟨middle, third, rfl, divides, read⟩ := reads_bindExpect.mp read
    obtain ⟨increment, _, three, read⟩ := reads_bind.mp read
    obtain ⟨closing, behind, rfl, close, read⟩ := reads_bindExpect.mp read
    obtain ⟨repeated, _, four, read⟩ := reads_bind.mp read
    obtain ⟨rfl, rfl⟩ := reads_succeed.mp read
    exact ⟨opening, after, initial, second, condition, middle, third, increment, closing, behind, repeated,
      rfl, mark, one, two, divides, three, close, four, rfl⟩
  · intro found
    obtain ⟨opening, after, initial, second, condition, middle, third, increment, closing, behind, repeated,
      rfl, mark, one, two, divides, three, close, four, rfl⟩ := found
    refine reads_bindExpect.mpr ⟨opening, after, rfl, mark, reads_bind.mpr ⟨initial, second, one, ?_⟩⟩
    refine reads_bind.mpr ⟨condition, _, two, reads_bindExpect.mpr ⟨middle, third, rfl, divides, ?_⟩⟩
    refine reads_bind.mpr ⟨increment, _, three, reads_bindExpect.mpr ⟨closing, behind, rfl, close, ?_⟩⟩
    exact reads_bind.mpr ⟨repeated, rest, four, reads_succeed.mpr ⟨rfl, rfl⟩⟩

theorem reads_furtherParameters {count : Nat} {found : List Token} :
    Reads (furtherParameters count (steps + 1)) last tokens found rest ↔
      count < maxArguments ∧ ∃ parameter behind, tokens = parameter :: behind ∧ parameter.kind = .identifier ∧
        ((¬ StartsWith [.comma] behind ∧ found = [parameter] ∧ rest = behind) ∨
          ∃ mark after others, behind = mark :: after ∧ mark.kind = .comma ∧
            Reads (furtherParameters (count + 1) steps) last after others rest ∧ found = parameter :: others) := by
  rw [furtherParameters, reads_bind]
  constructor
  · intro found
    obtain ⟨_, _, counted, read⟩ := found
    obtain ⟨rfl, few⟩ := reads_checkCount.mp counted
    obtain ⟨parameter, behind, rfl, kind, read⟩ := reads_bindExpect.mp read
    refine ⟨few, parameter, behind, rfl, kind, ?_⟩
    rcases reads_bindAccept.mp read with ⟨stops, read⟩ | ⟨mark, after, rfl, member, read⟩
    · exact .inl ⟨stops, reads_succeed.mp read⟩
    · obtain ⟨others, _, more, read⟩ := reads_bind.mp read
      obtain ⟨rfl, rfl⟩ := reads_succeed.mp read
      exact .inr ⟨mark, after, others, rfl, List.mem_singleton.mp member, more, rfl⟩
  · intro found
    obtain ⟨few, parameter, behind, rfl, kind, other⟩ := found
    refine ⟨(), _, reads_checkCount.mpr ⟨rfl, few⟩, reads_bindExpect.mpr ⟨parameter, behind, rfl, kind, ?_⟩⟩
    rcases other with ⟨stops, same⟩ | ⟨mark, after, others, rfl, kind, more, rfl⟩
    · exact reads_bindAccept.mpr (.inl ⟨stops, reads_succeed.mpr same⟩)
    · refine reads_bindAccept.mpr (.inr ⟨mark, after, rfl, List.mem_singleton.mpr kind, ?_⟩)
      exact reads_bind.mpr ⟨others, rest, more, reads_succeed.mpr ⟨rfl, rfl⟩⟩

theorem reads_parameterList {found : List Token} : Reads (parameterList steps) last tokens found rest ↔
    (StartsWith [.rightParen] tokens ∧ found = [] ∧ rest = tokens) ∨
    (¬ StartsWith [.rightParen] tokens ∧ Reads (furtherParameters 0 steps) last tokens found rest) := by
  unfold parameterList
  rw [reads_bindNextIs, reads_succeed]

theorem reads_closedBlock {stmts : List Stmt} : Reads (closedBlock declared) last tokens stmts rest ↔
    ∃ closing, Reads declared last tokens stmts (closing :: rest) ∧ closing.kind = .rightBrace := by
  unfold closedBlock
  constructor
  · intro read
    obtain ⟨body, _, one, read⟩ := reads_bind.mp read
    obtain ⟨closing, _, rfl, close, read⟩ := reads_bindExpect.mp read
    obtain ⟨rfl, rfl⟩ := reads_succeed.mp read
    exact ⟨closing, one, close⟩
  · intro found
    obtain ⟨closing, one, close⟩ := found
    refine reads_bind.mpr ⟨stmts, _, one, ?_⟩
    exact reads_bindExpect.mpr ⟨closing, rest, rfl, close, reads_succeed.mpr ⟨rfl, rfl⟩⟩

theorem reads_functionDeclaration : Reads (functionDeclaration steps declared) last tokens stmt rest ↔
    ∃ name opening after parameters closing brace behind body, tokens = name :: opening :: after ∧
      name.kind = .identifier ∧ opening.kind = .leftParen ∧
      Reads (parameterList steps) last after parameters (closing :: brace :: behind) ∧
      closing.kind = .rightParen ∧ brace.kind = .leftBrace ∧
      Reads (closedBlock declared) last behind body rest ∧ stmt = .function name parameters body := by
  unfold functionDeclaration
  constructor
  · intro read
    obtain ⟨name, _, rfl, kind, read⟩ := reads_bindExpect.mp read
    obtain ⟨opening, after, rfl, mark, read⟩ := reads_bindExpect.mp read
    obtain ⟨parameters, _, one, read⟩ := reads_bind.mp read
    obtain ⟨closing, _, rfl, close, read⟩ := reads_bindExpect.mp read
    obtain ⟨brace, behind, rfl, starts, read⟩ := reads_bindExpect.mp read
    obtain ⟨body, _, two, read⟩ := reads_bind.mp read
    obtain ⟨rfl, rfl⟩ := reads_succeed.mp read
    exact ⟨name, opening, after, parameters, closing, brace, behind, body, rfl, kind, mark, one, close, starts, two, rfl⟩
  · intro found
    obtain ⟨name, opening, after, parameters, closing, brace, behind, body, rfl, kind, mark, one, close, starts, two, rfl⟩ := found
    refine reads_bindExpect.mpr ⟨name, _, rfl, kind, reads_bindExpect.mpr ⟨opening, after, rfl, mark, ?_⟩⟩
    refine reads_bind.mpr ⟨parameters, _, one, reads_bindExpect.mpr ⟨closing, _, rfl, close, ?_⟩⟩
    refine reads_bindExpect.mpr ⟨brace, behind, rfl, starts, reads_bind.mpr ⟨body, rest, two, ?_⟩⟩
    exact reads_succeed.mpr ⟨rfl, rfl⟩

def statementWords : List TokenKind :=
  [.forWord, .ifWord, .whileWord, .leftBrace, .breakWord, .continueWord, .returnWord]

theorem reads_statement : Reads (statement (steps + 1)) last tokens stmt rest ↔
    (¬ StartsWith statementWords tokens ∧ Reads (expressionStatement (expression steps)) last tokens stmt rest) ∨
    ∃ word after, tokens = word :: after ∧
      (word.kind = .forWord ∧ Reads (forStatement word (expression steps) (statement steps)) last after stmt rest ∨
        word.kind = .ifWord ∧ Reads (ifStatement word (expression steps) (statement steps)) last after stmt rest ∨
        word.kind = .whileWord ∧
          Reads (whileStatement word (expression steps) (statement steps)) last after stmt rest ∨
        (word.kind = .leftBrace ∧ ∃ body, Reads (closedBlock (declarations true steps)) last after body rest ∧
          stmt = .block body word.pos) ∨
        (word.kind = .breakWord ∧ ∃ closing, after = closing :: rest ∧ closing.kind = .semicolon ∧
          stmt = .breakLoop word) ∨
        (word.kind = .continueWord ∧ ∃ closing, after = closing :: rest ∧ closing.kind = .semicolon ∧
          stmt = .continueLoop word) ∨
        word.kind = .returnWord ∧ Reads (returnStatement word (expression steps)) last after stmt rest) := by
  rw [statement, reads_bindAccept]
  apply or_congr Iff.rfl
  apply exists_congr
  intro word
  apply exists_congr
  intro after
  apply and_congr Iff.rfl
  constructor
  · intro found
    obtain ⟨member, read⟩ := found
    simp only [List.mem_cons, List.not_mem_nil, or_false] at member
    rcases member with kind | kind | kind | kind | kind | kind | kind <;> simp only [kind] at read
    · exact .inl ⟨kind, read⟩
    · exact .inr (.inl ⟨kind, read⟩)
    · exact .inr (.inr (.inl ⟨kind, read⟩))
    · obtain ⟨body, _, one, read⟩ := reads_bind.mp read
      obtain ⟨rfl, rfl⟩ := reads_succeed.mp read
      exact .inr (.inr (.inr (.inl ⟨kind, body, one, rfl⟩)))
    · obtain ⟨closing, _, rfl, close, read⟩ := reads_bindExpect.mp read
      obtain ⟨rfl, rfl⟩ := reads_succeed.mp read
      exact .inr (.inr (.inr (.inr (.inl ⟨kind, closing, rfl, close, rfl⟩))))
    · obtain ⟨closing, _, rfl, close, read⟩ := reads_bindExpect.mp read
      obtain ⟨rfl, rfl⟩ := reads_succeed.mp read
      exact .inr (.inr (.inr (.inr (.inr (.inl ⟨kind, closing, rfl, close, rfl⟩)))))
    · exact .inr (.inr (.inr (.inr (.inr (.inr ⟨kind, read⟩)))))
  · intro found
    rcases found with ⟨kind, read⟩ | ⟨kind, read⟩ | ⟨kind, read⟩ | ⟨kind, body, one, rfl⟩ |
      ⟨kind, closing, rfl, close, rfl⟩ | ⟨kind, closing, rfl, close, rfl⟩ | ⟨kind, read⟩
    all_goals refine ⟨by simp [kind], ?_⟩
    all_goals simp only [kind]
    · exact read
    · exact read
    · exact read
    · exact reads_bind.mpr ⟨body, rest, one, reads_succeed.mpr ⟨rfl, rfl⟩⟩
    · exact reads_bindExpect.mpr ⟨closing, rest, rfl, close, reads_succeed.mpr ⟨rfl, rfl⟩⟩
    · exact reads_bindExpect.mpr ⟨closing, rest, rfl, close, reads_succeed.mpr ⟨rfl, rfl⟩⟩
    · exact read

theorem reads_plainDeclaration {found : Option Stmt} :
    Reads (plainDeclaration steps value body declared) last tokens found rest ↔
      ∃ stmt, found = some stmt ∧
        ((¬ StartsWith [.varWord, .fnWord, .classWord] tokens ∧ Reads body last tokens stmt rest) ∨
          ∃ word after, tokens = word :: after ∧
            (word.kind = .varWord ∧ Reads (variableDeclaration value) last after stmt rest ∨
              word.kind = .fnWord ∧ Reads (functionDeclaration steps declared) last after stmt rest)) := by
  unfold plainDeclaration
  rw [reads_bindAccept]
  constructor
  · intro found
    rcases found with ⟨stops, read⟩ | ⟨word, after, rfl, member, read⟩
    · obtain ⟨stmt, _, one, read⟩ := reads_bind.mp read
      obtain ⟨rfl, rfl⟩ := reads_succeed.mp read
      exact ⟨stmt, rfl, .inl ⟨stops, one⟩⟩
    · simp only [List.mem_cons, List.not_mem_nil, or_false] at member
      rcases member with kind | kind | kind <;> simp only [kind] at read
      · obtain ⟨stmt, _, one, read⟩ := reads_bind.mp read
        obtain ⟨rfl, rfl⟩ := reads_succeed.mp read
        exact ⟨stmt, rfl, .inr ⟨word, after, rfl, .inl ⟨kind, one⟩⟩⟩
      · obtain ⟨stmt, _, one, read⟩ := reads_bind.mp read
        obtain ⟨rfl, rfl⟩ := reads_succeed.mp read
        exact ⟨stmt, rfl, .inr ⟨word, after, rfl, .inr ⟨kind, one⟩⟩⟩
      · obtain ⟨_, _, skipped, _⟩ := reads_bind.mp read
        obtain ⟨_, _, reported, _⟩ := reads_bind.mp skipped
        exact absurd reported reads_report
  · intro found
    obtain ⟨stmt, rfl, ⟨stops, one⟩ | ⟨word, after, rfl, other⟩⟩ := found
    · exact .inl ⟨stops, reads_bind.mpr ⟨stmt, rest, one, reads_succeed.mpr ⟨rfl, rfl⟩⟩⟩
    · rcases other with ⟨kind, one⟩ | ⟨kind, one⟩
      all_goals refine .inr ⟨word, after, rfl, by simp [kind], ?_⟩
      all_goals simp only [kind]
      all_goals exact reads_bind.mpr ⟨stmt, rest, one, reads_succeed.mpr ⟨rfl, rfl⟩⟩

/-- What failed was reported, so a declaration read without errors was not recovered. -/
theorem reads_declaration {nested : Bool} {found : Option Stmt} :
    Reads (declaration nested (steps + 1)) last tokens found rest ↔
      Reads (plainDeclaration steps (expression steps) (statement steps) (declarations true steps))
        last tokens found rest := by
  rw [declaration]
  unfold Reads recover
  cases outcome : plainDeclaration steps (expression steps) (statement steps) (declarations true steps) last tokens with
  | done value errors left => simp
  | exhausted => simp
  | failed errors left =>
    have reported := plainDeclaration_failed steps last tokens errors left outcome
    simp [reported.1]

/-- Declarations stop at the end of the tokens and, in a block, at its closing brace. -/
def StopsDeclarations (nested : Bool) (tokens : List Token) : Prop :=
  tokens = [] ∨ nested = true ∧ StartsWith [.rightBrace] tokens

theorem reads_declarations {nested : Bool} {stmts : List Stmt} :
    Reads (declarations nested (steps + 1)) last tokens stmts rest ↔
      (StopsDeclarations nested tokens ∧ stmts = [] ∧ rest = tokens) ∨
      (¬ StopsDeclarations nested tokens ∧ ∃ first behind others,
        Reads (declaration nested steps) last tokens first behind ∧
        Reads (declarations nested steps) last behind others rest ∧ stmts = first.toList ++ others) := by
  cases tokens with
  | nil =>
    unfold Reads StopsDeclarations
    rw [declarations_nil]
    simp [eq_comm]
  | cons token left =>
    have stops : StopsDeclarations nested (token :: left) ↔ closesBlock nested token = true := by
      simp [StopsDeclarations, StartsWith, closesBlock]
    rw [stops]
    unfold Reads
    rw [declarations_cons]
    cases closesBlock nested token with
    | true => simp [eq_comm]
    | false =>
      simp only [Bool.false_eq_true, if_false, false_and, false_or, not_false_eq_true, true_and]
      constructor
      · intro read
        obtain ⟨first, behind, one, read⟩ := reads_bind.mp read
        obtain ⟨others, _, more, read⟩ := reads_bind.mp read
        obtain ⟨rfl, rfl⟩ := reads_succeed.mp read
        exact ⟨first, behind, others, one, more, rfl⟩
      · intro found
        obtain ⟨first, behind, others, one, more, rfl⟩ := found
        refine reads_bind.mpr ⟨first, behind, one, reads_bind.mpr ⟨others, rest, more, ?_⟩⟩
        exact reads_succeed.mpr ⟨rfl, rfl⟩

end Statements

theorem declaration_recovers (nested : Bool) (steps : Nat) (last : Token) (tokens : List Token)
    (errors : List Diagnostic) (rest : List Token) : declaration nested steps last tokens ≠ .failed errors rest := by
  intro failed
  cases steps with
  | zero => cases failed
  | succ steps =>
    rw [declaration] at failed
    unfold recover at failed
    split at failed
    next => cases failed
    next other => exact other errors rest failed

/-- Declarations never fail, and leave nothing that they could have read. -/
theorem declarations_stop (nested : Bool) (steps : Nat) (last : Token) (tokens : List Token) :
    declarations nested steps last tokens = .exhausted ∨ ∃ stmts errors rest,
      declarations nested steps last tokens = .done stmts errors rest ∧ StopsDeclarations nested rest := by
  induction steps generalizing tokens with
  | zero => exact .inl rfl
  | succ steps ih =>
    cases tokens with
    | nil => exact .inr ⟨[], [], [], declarations_nil nested steps last, .inl rfl⟩
    | cons token left =>
      rw [declarations_cons]
      cases closes : closesBlock nested token with
      | true =>
        simp only [closesBlock, Bool.and_eq_true, beq_iff_eq] at closes
        exact .inr ⟨[], [], token :: left, rfl, .inr ⟨closes.1, token, left, rfl, by simp [closes.2]⟩⟩
      | false =>
        change andThen (declaration nested steps) _ last (token :: left) = _ ∨ _
        unfold andThen
        cases outcome : declaration nested steps last (token :: left) with
        | exhausted => exact .inl rfl
        | failed errors rest => exact absurd outcome (declaration_recovers nested steps last _ errors rest)
        | done first errors behind =>
          rcases ih behind with same | ⟨stmts, more, rest, same, stops⟩
          · exact .inl (by simp [bind, andThen, same, Parsed.reportedAfter])
          · refine .inr ⟨first.toList ++ stmts, errors ++ more, rest, ?_, stops⟩
            simp [bind, andThen, outcome, same, Parsed.reportedAfter, pure, succeed]

end Treewalk.Parser
