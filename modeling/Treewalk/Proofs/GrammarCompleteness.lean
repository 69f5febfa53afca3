import Treewalk.Proofs.GrammarSoundness

/-! Every phrase of the grammar is read, and its tree is the one that the grammar gives to it. What
stands behind the phrase must not be able to extend it. A chain of operators and a row of calls are
read from the left, so what is read is followed through what comes after each of them. -/

namespace Treewalk.Parser
open Grammar

/-- With enough steps the rule reads the value off the front of the tokens and reports nothing. -/
def Settles {α : Type} (rule : Nat → Parser α) (last : Token) (tokens : List Token) (value : α)
    (rest : List Token) : Prop :=
  ∃ least, ∀ steps, least ≤ steps → Reads (rule steps) last tokens value rest

theorem settles_of_succ {α : Type} {rule : Nat → Parser α} {last : Token} {tokens rest : List Token} {value : α}
    (least : Nat) (reads : ∀ steps, least ≤ steps → Reads (rule (steps + 1)) last tokens value rest) :
    Settles rule last tokens value rest := by
  refine ⟨least + 1, fun steps enough => ?_⟩
  cases steps with
  | zero => omega
  | succ steps => exact reads steps (by omega)

theorem not_startsWith_cons {kinds : List TokenKind} {token : Token} {tokens : List Token}
    (other : token.kind ∉ kinds) : ¬ StartsWith kinds (token :: tokens) := by
  intro found
  obtain ⟨_, _, same, member⟩ := found
  cases same
  exact other member

theorem not_startsWith_nil {kinds : List TokenKind} : ¬ StartsWith kinds [] := by
  intro found
  obtain ⟨_, _, same, _⟩ := found
  cases same

theorem not_startsWith_any {tokens : List Token} : ¬ StartsWith [] tokens := by
  intro found
  obtain ⟨_, _, _, member⟩ := found
  cases member

theorem StartsWith.append {kinds : List TokenKind} {tokens : List Token} (starts : StartsWith kinds tokens)
    (rest : List Token) : StartsWith kinds (tokens ++ rest) := by
  obtain ⟨token, others, rfl, member⟩ := starts
  exact ⟨token, others ++ rest, rfl, member⟩

theorem StartsWith.weaken {kinds more : List TokenKind} {tokens : List Token} (starts : StartsWith kinds tokens)
    (within : ∀ kind ∈ kinds, kind ∈ more) : StartsWith more tokens := by
  obtain ⟨token, others, rfl, member⟩ := starts
  exact ⟨token, others, rfl, within _ member⟩

theorem StartsWith.excludes {kinds others : List TokenKind} {tokens : List Token} (starts : StartsWith kinds tokens)
    (apart : ∀ kind ∈ kinds, kind ∉ others) : ¬ StartsWith others tokens := by
  obtain ⟨token, rest, rfl, member⟩ := starts
  exact not_startsWith_cons (apart _ member)

def phraseStarts : Phrase → List TokenKind
  | .call | .primary => .leftParen :: atomStarts
  | _ => .leftParen :: (atomStarts ++ unarySigns)

theorem phraseStarts_subset (phrase : Phrase) :
    ∀ kind ∈ phraseStarts phrase, kind ∈ phraseStarts .expression := by
  intro kind member
  cases phrase with
  | call | primary => exact List.mem_cons.mpr ((List.mem_cons.mp member).imp id (List.mem_append_left _))
  | _ => exact member

theorem expression_starts {phrase : Phrase} {tokens : List Token} {expr : Expr}
    (derived : Expression phrase tokens expr) : StartsWith (phraseStarts phrase) tokens := by
  induction derived with
  | assign name _ _ _ | compound name _ _ _ => exact ⟨_, _, rfl, by simp [name, phraseStarts, atomStarts]⟩
  | unassigned _ ih | unchosen _ ih | uncalled _ ih => exact ih
  | choice _ _ _ _ _ ih _ _ | operator _ _ _ ih _ | call _ _ _ _ _ _ ih _ => exact ih.append _
  | operand inner ih => exact ih.weaken (phraseStarts_subset _)
  | unsigned _ ih => exact ih.weaken (phraseStarts_subset .call)
  | increment counts _ | decrement counts _ => exact ⟨_, _, rfl, by simp [counts, phraseStarts, unarySigns]⟩
  | negation negates _ _ =>
    refine ⟨_, _, rfl, ?_⟩
    simp only [List.mem_cons, List.not_mem_nil, or_false] at negates
    rcases negates with kind | kind <;> simp [kind, phraseStarts, unarySigns]
  | truth word | falsity word | null word | name word => exact ⟨_, _, rfl, by simp [word, phraseStarts, atomStarts]⟩
  | constant spelled =>
    refine ⟨_, _, rfl, ?_⟩
    simp only [List.mem_cons, List.not_mem_nil, or_false] at spelled
    rcases spelled with kind | kind <;> simp [kind, phraseStarts, atomStarts]
  | group opens _ _ _ => exact ⟨_, _, rfl, by simp [opens, phraseStarts]⟩

def extenders : Phrase → List TokenKind
  | .primary => []
  | .ternary => .question :: .leftParen :: levels.flatMap Level.operators
  | .expression => assignmentSigns ++ .question :: .leftParen :: levels.flatMap Level.operators
  | phrase => .leftParen :: (phraseLevels phrase).flatMap Level.operators

theorem extenders_chain (tier : Tier) :
    ∀ kind, kind ∈ extenders (.chain tier) ↔ kind ∈ tier.operators ∨ kind ∈ extenders tier.operand := by
  intro kind
  cases tier <;> simp [extenders, phraseLevels, tighterLevels, tierLevel, Tier.operand] <;> tauto

/-- Operators that bind equally tightly extend their chain, but none of its operands. -/
theorem operators_apart (tier : Tier) : ∀ kind ∈ tier.operators, kind ∉ extenders tier.operand := by
  cases tier <;> decide

/-- The rule that reads a phrase. Calls are read together with what is called. -/
def phraseRule : Phrase → Nat → Parser Expr
  | .expression => expression
  | .ternary => ternary
  | .chain tier => binary (phraseLevels (.chain tier))
  | .unary | .call => unary
  | .primary => primary

def further : Phrase → Expr → Nat → Parser Expr
  | .chain tier, expr => operands (tierLevel tier) (tighterLevels tier) expr
  | .call, expr => calls expr
  | _, expr => fun _ => pure expr

def partExtenders : Phrase → List TokenKind
  | .chain tier => extenders tier.operand
  | .call => []
  | phrase => extenders phrase

/-- When the phrase stands in front of what is read next, both are read together. -/
def Continues (phrase : Phrase) (tokens : List Token) (expr : Expr) : Prop :=
  ∀ last rest value final, ¬ StartsWith (partExtenders phrase) rest → Settles (further phrase expr) last rest value final →
    Settles (phraseRule phrase) last (tokens ++ rest) value final

/-- The phrase is read up to where nothing extends it. -/
def Complete (phrase : Phrase) (tokens : List Token) (expr : Expr) : Prop :=
  ∀ last rest, ¬ StartsWith (extenders phrase) rest → Settles (phraseRule phrase) last (tokens ++ rest) expr rest

theorem settles_pure {last : Token} {rest : List Token} {expr : Expr} :
    Settles (fun _ => pure expr) last rest expr rest :=
  ⟨0, fun _ _ => reads_succeed.mpr ⟨rfl, rfl⟩⟩

theorem settles_pure_iff {last : Token} {rest final : List Token} {expr value : Expr} :
    Settles (fun _ => pure expr) last rest value final ↔ value = expr ∧ final = rest := by
  constructor
  · intro found
    obtain ⟨least, reads⟩ := found
    exact reads_succeed.mp (reads least (Nat.le_refl least))
  · intro found
    obtain ⟨rfl, rfl⟩ := found
    exact settles_pure

theorem settles_operands_stop {level : Level} {tighter : List Level} {last : Token} {rest : List Token} {expr : Expr}
    (stops : ¬ StartsWith level.operators rest) : Settles (operands level tighter expr) last rest expr rest :=
  settles_of_succ 0 fun _ _ => reads_operands.mpr (.inl ⟨stops, rfl, rfl⟩)

theorem Continues.complete {phrase : Phrase} {tokens : List Token} {expr : Expr}
    (continues : Continues phrase tokens expr) : Complete phrase tokens expr := by
  intro last rest stops
  cases phrase with
  | chain tier =>
    have apart : ∀ kinds : List TokenKind, (∀ kind ∈ kinds, kind ∈ extenders (.chain tier)) → ¬ StartsWith kinds rest :=
      fun kinds within starts => stops (starts.weaken within)
    apply continues
    · exact apart _ fun kind member => (extenders_chain tier kind).mpr (.inr member)
    · apply settles_operands_stop
      exact apart _ fun kind member => (extenders_chain tier kind).mpr (.inl member)
  | call =>
    apply continues _ _ _ _ not_startsWith_any
    exact settles_of_succ 0 fun _ _ => reads_calls.mpr (.inl ⟨stops, rfl, rfl⟩)
  | _ => exact continues _ _ _ _ stops settles_pure

theorem settles_tighter {tier : Tier} {last : Token} {tokens rest : List Token} {expr : Expr}
    (settles : Settles (phraseRule tier.operand) last tokens expr rest) :
    Settles (binary (tighterLevels tier)) last tokens expr rest := by
  cases tier with
  | factor =>
    obtain ⟨least, reads⟩ := settles
    exact settles_of_succ least fun steps enough => reads_binary_nil.mpr (reads steps enough)
  | _ => exact settles

/-- The arguments of a list, each of them read whole, are read one after another. -/
theorem furtherArguments_complete {arguments : List (List Token × Expr)} {listed : List Token}
    (list : Separated (arguments.map Prod.fst) listed)
    (each : ∀ argument ∈ arguments, Complete .expression argument.1 argument.2) (some : arguments ≠ [])
    (count : Nat) (few : count + arguments.length ≤ listLimit) (last : Token) {closing : Token}
    (closes : closing.kind = .rightParen) (behind : List Token) :
    Settles (furtherArguments count) last (listed ++ closing :: behind) (arguments.map Prod.snd) (closing :: behind) := by
  have limit : maxArguments = listLimit := rfl
  induction arguments generalizing count listed with
  | nil => exact absurd rfl some
  | cons argument arguments ih =>
    have first := each argument (by simp)
    simp only [List.length_cons] at few
    cases arguments with
    | nil =>
      cases list
      have stops : ¬ StartsWith (extenders .expression) (closing :: behind) := not_startsWith_cons (by rw [closes]; decide)
      obtain ⟨least, reads⟩ := first last _ stops
      refine settles_of_succ least fun steps enough => reads_furtherArguments.mpr ⟨by omega, argument.2, _, reads steps enough, ?_⟩
      exact .inl ⟨not_startsWith_cons (by rw [closes]; decide), rfl, rfl⟩
    | cons next arguments =>
      cases list with
      | @more _ _ _ mark tokens divides list =>
        have stops : ¬ StartsWith (extenders .expression) (mark :: (tokens ++ closing :: behind)) :=
          not_startsWith_cons (by rw [divides]; decide)
        obtain ⟨least, reads⟩ := first last _ stops
        obtain ⟨least', more⟩ := ih list (fun argument member => each argument (List.mem_cons_of_mem _ member))
          (by simp) (count + 1) (by simp only [List.length_cons] at few ⊢; omega)
        refine settles_of_succ (least + least') fun steps enough => ?_
        rw [List.append_assoc]
        exact reads_furtherArguments.mpr ⟨by omega, argument.2, _, reads steps (by omega),
          .inr ⟨mark, _, _, rfl, divides, more steps (by omega), rfl⟩⟩

theorem argumentList_complete {arguments : List (List Token × Expr)} {listed : List Token}
    (list : Separated (arguments.map Prod.fst) listed)
    (derived : ∀ argument ∈ arguments, Expression .expression argument.1 argument.2)
    (each : ∀ argument ∈ arguments, Complete .expression argument.1 argument.2)
    (few : arguments.length ≤ listLimit) (last : Token) {closing : Token} (closes : closing.kind = .rightParen)
    (behind : List Token) :
    Settles argumentList last (listed ++ closing :: behind) (arguments.map Prod.snd) (closing :: behind) := by
  cases arguments with
  | nil =>
    cases list
    exact settles_of_succ 0 fun _ _ => reads_argumentList.mpr (.inl ⟨⟨closing, behind, rfl, by simp [closes]⟩, rfl, rfl⟩)
  | cons argument arguments =>
    have begins : StartsWith (phraseStarts .expression) listed := by
      have first := expression_starts (derived argument (by simp))
      cases arguments with
      | nil =>
        cases list
        exact first
      | cons next arguments =>
        cases list
        exact first.append _
    have stops : ¬ StartsWith [.rightParen] (listed ++ closing :: behind) :=
      (begins.append _).excludes (by decide)
    obtain ⟨least, reads⟩ := furtherArguments_complete list each (by simp) 0 (by omega) last closes behind
    exact settles_of_succ least fun steps enough => reads_argumentList.mpr (.inr ⟨stops, reads steps enough⟩)

/-- A phrase to which no parts can be added from the left is followed through nothing. -/
theorem Complete.continues {phrase : Phrase} {tokens : List Token} {expr : Expr} (complete : Complete phrase tokens expr)
    (whole : further phrase expr = fun _ => pure expr) (same : partExtenders phrase = extenders phrase) :
    Continues phrase tokens expr := by
  intro last rest value final stops settles
  rw [whole] at settles
  obtain ⟨rfl, rfl⟩ := settles_pure_iff.mp settles
  exact complete last final (same ▸ stops)

section Productions

variable {tokens : List Token} {expr : Expr}

private theorem unassigned_complete (inner : Complete .ternary tokens expr) : Complete .expression tokens expr := by
  intro last rest stops
  obtain ⟨least, reads⟩ := inner last rest fun starts => stops (starts.weaken (by decide))
  refine settles_of_succ least fun steps enough => reads_expression.mpr ⟨expr, rest, reads steps enough, .inl ⟨?_, rfl, rfl⟩⟩
  exact fun starts => stops (starts.weaken (by decide))

private theorem choice_complete {firsts seconds : List Token} {mark divider : Token} {first second : Expr}
    (decision : Complete (.chain .disjunction) tokens expr) (asks : mark.kind = .question)
    (yes : Complete .ternary firsts first) (divides : divider.kind = .colon) (no : Complete .ternary seconds second) :
    Complete .ternary (tokens ++ mark :: (firsts ++ divider :: seconds)) (.ternary expr first second) := by
  intro last rest stops
  obtain ⟨one, readsOne⟩ := decision last (mark :: (firsts ++ divider :: (seconds ++ rest)))
    (not_startsWith_cons (by rw [asks]; decide))
  obtain ⟨two, readsTwo⟩ := yes last (divider :: (seconds ++ rest)) (not_startsWith_cons (by rw [divides]; decide))
  obtain ⟨three, readsThree⟩ := no last rest stops
  refine settles_of_succ (one + two + three) fun steps enough => ?_
  simp only [List.append_assoc, List.cons_append]
  exact reads_ternary.mpr ⟨expr, _, readsOne steps (by omega), .inr ⟨mark, _, first, divider, _, second, rfl, asks,
    readsTwo steps (by omega), divides, readsThree steps (by omega), rfl⟩⟩

private theorem unchosen_complete (inner : Complete (.chain .disjunction) tokens expr) : Complete .ternary tokens expr := by
  intro last rest stops
  obtain ⟨least, reads⟩ := inner last rest fun starts => stops (starts.weaken (by decide))
  refine settles_of_succ least fun steps enough => reads_ternary.mpr ⟨expr, rest, reads steps enough, .inl ⟨?_, rfl, rfl⟩⟩
  exact fun starts => stops (starts.weaken (by decide))

private theorem operand_continues {tier : Tier} (inner : Complete tier.operand tokens expr) :
    Continues (.chain tier) tokens expr := by
  intro last rest value final stops settles
  obtain ⟨one, readsOne⟩ := settles_tighter (inner last rest stops)
  obtain ⟨two, readsTwo⟩ := settles
  exact settles_of_succ (one + two) fun steps enough =>
    reads_binary_cons.mpr ⟨expr, rest, readsOne steps (by omega), readsTwo steps (by omega)⟩

private theorem operator_continues {tier : Tier} {rights : List Token} {sign : Token} {right : Expr}
    (first : Continues (.chain tier) tokens expr) (joins : sign.kind ∈ tier.operators)
    (second : Complete tier.operand rights right) :
    Continues (.chain tier) (tokens ++ sign :: rights) (tier.node expr sign right) := by
  intro last rest value final stops settles
  obtain ⟨one, readsOne⟩ := settles_tighter (second last rest stops)
  obtain ⟨two, readsTwo⟩ := settles
  rw [List.append_assoc]
  apply first
  · exact not_startsWith_cons (operators_apart tier _ joins)
  · exact settles_of_succ (one + two) fun steps enough => reads_operands.mpr
      (.inr ⟨sign, _, right, rest, rfl, joins, readsOne steps (by omega), readsTwo steps (by omega)⟩)

private theorem increment_complete {sign target : Token} (counts : sign.kind = .plusPlus ∨ sign.kind = .minusMinus)
    (name : target.kind = .identifier) : Complete .unary [sign, target]
      (.assign target (.binary (.name target) (.operatorAt (if sign.kind == .minusMinus then .minus else .plus) sign)
        (.literal (.number 1.0) sign.pos))) := by
  intro last rest _
  refine settles_of_succ 0 fun steps _ => reads_unary.mpr (.inr ⟨sign, target :: rest, rfl, .inl ⟨counts, ?_⟩⟩)
  exact reads_increment.mpr ⟨target, rfl, name, rfl⟩

private theorem negation_complete {sign : Token} (negates : sign.kind ∈ [.bang, .minus])
    (inner : Complete .unary tokens expr) : Complete .unary (sign :: tokens) (.unary sign expr) := by
  intro last rest stops
  obtain ⟨least, reads⟩ := inner last rest stops
  exact settles_of_succ least fun steps enough => reads_unary.mpr
    (.inr ⟨sign, tokens ++ rest, rfl, .inr ⟨by simpa using negates, expr, reads steps enough, rfl⟩⟩)

private theorem uncalled_continues (derived : Expression .primary tokens expr) (inner : Complete .primary tokens expr) :
    Continues .call tokens expr := by
  intro last rest value final _ settles
  obtain ⟨one, readsOne⟩ := inner last rest not_startsWith_any
  obtain ⟨two, readsTwo⟩ := settles
  have unsigned : ¬ StartsWith unarySigns (tokens ++ rest) := ((expression_starts derived).append rest).excludes (by decide)
  exact settles_of_succ (one + two) fun steps enough => reads_unary.mpr
    (.inl ⟨unsigned, expr, rest, readsOne steps (by omega), readsTwo steps (by omega)⟩)

private theorem call_continues {listed : List Token} {opening closing : Token} {arguments : List (List Token × Expr)}
    (called : Continues .call tokens expr) (opens : opening.kind = .leftParen)
    (derived : ∀ argument ∈ arguments, Expression .expression argument.1 argument.2)
    (each : ∀ argument ∈ arguments, Complete .expression argument.1 argument.2)
    (few : arguments.length ≤ listLimit) (list : Separated (arguments.map Prod.fst) listed)
    (closes : closing.kind = .rightParen) :
    Continues .call (tokens ++ opening :: (listed ++ [closing])) (.call expr closing (arguments.map Prod.snd)) := by
  intro last rest value final _ settles
  obtain ⟨one, readsOne⟩ := argumentList_complete list derived each few last closes rest
  obtain ⟨two, readsTwo⟩ := settles
  simp only [List.append_assoc, List.cons_append, List.nil_append]
  apply called _ _ _ _ not_startsWith_any
  exact settles_of_succ (one + two) fun steps enough => reads_calls.mpr
    (.inr ⟨opening, _, _, closing, rest, rfl, opens, readsOne steps (by omega), closes, readsTwo steps (by omega)⟩)

private theorem atom_complete {token : Token} (kind : token.kind ∈ atomStarts) (found : atom? token = some expr) :
    Complete .primary [token] expr := by
  intro last rest _
  exact settles_of_succ 0 fun _ _ => reads_primary.mpr ⟨token, rest, rfl, .inl ⟨kind, found, rfl⟩⟩

private theorem compoundSign_assigns {sign operator : TokenKind} (pair : (sign, operator) ∈ compoundSigns) :
    sign ∈ assignmentSigns := by
  simp only [compoundSigns, List.mem_cons, Prod.mk.injEq, List.not_mem_nil, or_false] at pair
  rcases pair with ⟨rfl, _⟩ | ⟨rfl, _⟩ | ⟨rfl, _⟩ | ⟨rfl, _⟩ <;> decide

private theorem name_complete {target : Token} (name : target.kind = .identifier) :
    Complete .ternary [target] (.name target) := by
  have primary : Complete .primary [target] (.name target) :=
    atom_complete (by simp [name, atomStarts]) (by simp [atom?, name])
  have factor : Complete Tier.factor.operand [target] (.name target) :=
    (uncalled_continues (.name name) primary).complete
  have term : Complete Tier.term.operand [target] (.name target) := (operand_continues factor).complete
  have comparison : Complete Tier.comparison.operand [target] (.name target) := (operand_continues term).complete
  have equality : Complete Tier.equality.operand [target] (.name target) := (operand_continues comparison).complete
  have conjunction : Complete Tier.conjunction.operand [target] (.name target) := (operand_continues equality).complete
  have disjunction : Complete Tier.disjunction.operand [target] (.name target) := (operand_continues conjunction).complete
  exact unchosen_complete (operand_continues disjunction).complete

private theorem assign_complete {target sign : Token} (name : target.kind = .identifier) (assigns : sign.kind ∈ assignmentSigns)
    (right : Complete .expression tokens expr) :
    Complete .expression (target :: sign :: tokens) (.assign target (assignedValue target sign expr)) := by
  intro last rest stops
  have apart : ∀ kind ∈ assignmentSigns, kind ∉ extenders .ternary := by decide
  obtain ⟨one, readsOne⟩ := name_complete name last (sign :: (tokens ++ rest)) (not_startsWith_cons (apart _ assigns))
  obtain ⟨two, readsTwo⟩ := right last rest stops
  exact settles_of_succ (one + two) fun steps enough => reads_expression.mpr ⟨.name target, _, readsOne steps (by omega),
    .inr ⟨target, sign, _, expr, rfl, rfl, assigns, readsTwo steps (by omega), rfl⟩⟩

private theorem group_complete {opening closing : Token} (opens : opening.kind = .leftParen)
    (inner : Complete .expression tokens expr) (closes : closing.kind = .rightParen) :
    Complete .primary (opening :: (tokens ++ [closing])) (.group expr) := by
  intro last rest _
  obtain ⟨least, reads⟩ := inner last (closing :: rest) (not_startsWith_cons (by rw [closes]; decide))
  refine settles_of_succ least fun steps enough => ?_
  simp only [List.append_assoc, List.cons_append, List.nil_append]
  exact reads_primary.mpr ⟨opening, _, rfl, .inr ⟨opens, expr, closing, reads steps enough, closes, rfl⟩⟩

end Productions

theorem expression_continues {phrase : Phrase} {tokens : List Token} {expr : Expr}
    (derived : Expression phrase tokens expr) : Continues phrase tokens expr := by
  induction derived with
  | assign name assigns _ ih =>
    have read := assign_complete name (List.mem_cons.mpr (.inl assigns)) ih.complete
    rw [assignedValue_assign assigns] at read
    exact read.continues rfl rfl
  | compound name assigns _ ih =>
    have read := assign_complete name (compoundSign_assigns assigns) ih.complete
    rw [assignedValue_compound assigns] at read
    exact read.continues rfl rfl
  | unassigned _ ih => exact (unassigned_complete ih.complete).continues rfl rfl
  | choice _ asks _ divides _ decision yes no =>
    exact (choice_complete decision.complete asks yes.complete divides no.complete).continues rfl rfl
  | unchosen _ ih => exact (unchosen_complete ih.complete).continues rfl rfl
  | operand _ ih => exact operand_continues ih.complete
  | operator _ joins _ first second => exact operator_continues first joins second.complete
  | increment counts name =>
    have read := increment_complete (.inl counts) name
    rw [counts] at read
    exact read.continues rfl rfl
  | decrement counts name =>
    have read := increment_complete (.inr counts) name
    rw [counts] at read
    exact read.continues rfl rfl
  | negation negates _ ih => exact (negation_complete negates ih.complete).continues rfl rfl
  | unsigned _ ih => exact Complete.continues ih.complete rfl rfl
  | uncalled inner ih => exact uncalled_continues inner ih.complete
  | call _ opens derived few list closes called each =>
    exact call_continues called opens derived (fun argument member => (each argument member).complete) few list closes
  | truth word | falsity word | null word | name word =>
    exact (atom_complete (by simp [word, atomStarts]) (by simp [atom?, word])).continues rfl rfl
  | constant spelled =>
    simp only [List.mem_cons, List.not_mem_nil, or_false] at spelled
    rcases spelled with word | word <;>
      exact (atom_complete (by simp [word, atomStarts]) (by simp [atom?, word])).continues rfl rfl
  | group opens _ closes ih => exact (group_complete opens ih.complete closes).continues rfl rfl

theorem expression_complete {tokens : List Token} {expr : Expr} (derived : Expression .expression tokens expr) :
    Complete .expression tokens expr :=
  (expression_continues derived).complete

/-- In front of a token that ends expressions an expression is read whole. -/
theorem settles_expression {tokens : List Token} {expr : Expr} (derived : Expression .expression tokens expr)
    (last : Token) {closing : Token} (closes : closing.kind = .semicolon ∨ closing.kind = .rightParen) (behind : List Token) :
    Settles expression last (tokens ++ closing :: behind) expr (closing :: behind) := by
  apply expression_complete derived
  apply not_startsWith_cons
  rcases closes with kind | kind <;> rw [kind] <;> decide

theorem settles_optional {tokens : List Token} {found : Option Expr} (derived : Optional tokens found) (last : Token)
    {closing : Token} (closes : closing.kind = .semicolon ∨ closing.kind = .rightParen) (behind : List Token) :
    Settles (fun steps => optionalBefore closing.kind (expression steps)) last (tokens ++ closing :: behind) found
      (closing :: behind) := by
  cases derived with
  | absent =>
    exact ⟨0, fun _ _ => reads_optionalBefore.mpr (.inl ⟨⟨closing, behind, rfl, List.mem_singleton.mpr rfl⟩, rfl, rfl⟩)⟩
  | present inner =>
    obtain ⟨least, reads⟩ := settles_expression inner last closes behind
    have begins : ¬ StartsWith [closing.kind] (tokens ++ closing :: behind) := by
      apply ((expression_starts inner).append _).excludes
      intro kind member same
      rw [List.mem_singleton.mp same] at member
      rcases closes with kind | kind <;> rw [kind] at member <;> exact absurd member (by decide)
    exact ⟨least, fun steps enough => reads_optionalBefore.mpr (.inr ⟨begins, _, reads steps enough, rfl⟩)⟩

theorem settles_variableDeclaration {word : Token} {tokens : List Token} {stmt : Stmt}
    (derived : VariableDeclaration (word :: tokens) stmt) (last : Token) (rest : List Token) :
    Settles (fun steps => variableDeclaration (expression steps)) last (tokens ++ rest) stmt rest := by
  cases derived with
  | @bare _ name closing _ names ends =>
    refine ⟨0, fun steps _ => reads_variableDeclaration.mpr ⟨name, closing :: rest, none, closing, rfl, names, ?_, ends, rfl⟩⟩
    exact reads_initializer.mpr (.inl ⟨not_startsWith_cons (by rw [ends]; decide), rfl, rfl⟩)
  | @initialized _ name sign closing tokens expr _ names assigns value ends =>
    obtain ⟨least, reads⟩ := settles_expression value last (.inl ends) rest
    refine ⟨least, fun steps enough => ?_⟩
    simp only [List.append_assoc, List.cons_append, List.nil_append]
    refine reads_variableDeclaration.mpr ⟨name, _, some expr, closing, rfl, names, ?_, ends, rfl⟩
    exact reads_initializer.mpr (.inr ⟨sign, _, expr, rfl, assigns, reads steps enough, rfl⟩)

theorem settles_expressionStatement {tokens : List Token} {expr : Expr} (derived : Expression .expression tokens expr)
    (last : Token) {closing : Token} (ends : closing.kind = .semicolon) (rest : List Token) :
    Settles (fun steps => expressionStatement (expression steps)) last (tokens ++ [closing] ++ rest) (.expression expr) rest := by
  obtain ⟨least, reads⟩ := settles_expression derived last (.inl ends) rest
  refine ⟨least, fun steps enough => reads_expressionStatement.mpr ⟨expr, closing, ?_, ends, rfl⟩⟩
  rw [List.append_assoc]
  exact reads steps enough

theorem settles_furtherParameters {parameters listed : List Token}
    (list : Separated (parameters.map fun parameter => [parameter]) listed)
    (each : ∀ parameter ∈ parameters, parameter.kind = .identifier) (some : parameters ≠ [])
    (count : Nat) (few : count + parameters.length ≤ listLimit) (last : Token) {closing : Token}
    (closes : closing.kind = .rightParen) (behind : List Token) :
    Settles (furtherParameters count) last (listed ++ closing :: behind) parameters (closing :: behind) := by
  have limit : maxArguments = listLimit := rfl
  induction parameters generalizing count listed with
  | nil => exact absurd rfl some
  | cons parameter parameters ih =>
    have names := each parameter (by simp)
    simp only [List.length_cons] at few
    cases parameters with
    | nil =>
      cases list
      refine settles_of_succ 0 fun steps _ => reads_furtherParameters.mpr ⟨by omega, parameter, _, rfl, names, ?_⟩
      exact .inl ⟨not_startsWith_cons (by rw [closes]; decide), rfl, rfl⟩
    | cons next parameters =>
      cases list with
      | @more _ _ _ mark tokens divides list =>
        obtain ⟨least, more⟩ := ih list (fun parameter member => each parameter (List.mem_cons_of_mem _ member))
          (by simp) (count + 1) (by simp only [List.length_cons] at few ⊢; omega)
        exact settles_of_succ least fun steps enough => reads_furtherParameters.mpr ⟨by omega, parameter, _, rfl, names,
          .inr ⟨mark, _, _, rfl, divides, more steps enough, rfl⟩⟩

theorem settles_parameterList {parameters listed : List Token}
    (list : Separated (parameters.map fun parameter => [parameter]) listed)
    (each : ∀ parameter ∈ parameters, parameter.kind = .identifier) (few : parameters.length ≤ listLimit)
    (last : Token) {closing : Token} (closes : closing.kind = .rightParen) (behind : List Token) :
    Settles parameterList last (listed ++ closing :: behind) parameters (closing :: behind) := by
  cases parameters with
  | nil =>
    cases list
    exact ⟨0, fun _ _ => reads_parameterList.mpr (.inl ⟨⟨closing, behind, rfl, by simp [closes]⟩, rfl, rfl⟩)⟩
  | cons parameter parameters =>
    obtain ⟨least, reads⟩ := settles_furtherParameters list each (by simp) 0 (by omega) last closes behind
    have begins : StartsWith [.identifier] listed := by
      have names := each parameter (by simp)
      cases parameters with
      | nil =>
        cases list
        exact ⟨parameter, [], rfl, by simp [names]⟩
      | cons next parameters =>
        cases list
        exact ⟨parameter, _, rfl, by simp [names]⟩
    have stops : ¬ StartsWith [.rightParen] (listed ++ closing :: behind) := (begins.append _).excludes (by decide)
    exact ⟨least, fun steps enough => reads_parameterList.mpr (.inr ⟨stops, reads steps enough⟩)⟩

end Treewalk.Parser
