import Treewalk.Proofs.Grammar
import Treewalk.Proofs.ParserLikeness
import Treewalk.Proofs.TreeReading

/-! A tree that the grammar derives from tokens of a source can be told from its text. For each node there is
a rule that puts its text together from the texts of its parts, and a derivation applies the rules in turn. -/

namespace Treewalk

def variedKinds : List TokenKind :=
  [.identifier, .number, .string, .andWord, .orWord]

/-- A token as a source spells it. -/
structure Token.Genuine (token : Token) : Prop where
  constant : Shape.Readable (.constant token.value)
  silent : token.kind ∉ [.number, .string] → token.value = .null
  named : token.kind = .identifier → Word token.lexeme
  spelled : token.kind ∉ variedKinds → token.lexeme = token.kind.bytes

namespace Token.Genuine

variable {token : Token}

theorem readable_name (genuine : token.Genuine) (names : token.kind = .identifier) : (Shape.word token.lexeme).Readable :=
  .leaf (.word (genuine.named names))

theorem placeless_name (genuine : token.Genuine) (names : token.kind = .identifier) :
    token.relocate Position.forget = .named token.lexeme := by
  have silent := genuine.silent (by simp [names])
  obtain ⟨kind, lexeme, value, pos⟩ := token
  obtain rfl : kind = .identifier := names
  obtain rfl : value = .null := silent
  rfl

theorem placeless_spelling (genuine : token.Genuine) (fixed : token.kind ∉ variedKinds) :
    token.relocate Position.forget = .spelling token.kind := by
  have constants : [TokenKind.number, .string] ⊆ variedKinds := by decide
  have silent := genuine.silent fun constant => fixed (constants constant)
  have spelled := genuine.spelled fixed
  obtain ⟨kind, lexeme, value, pos⟩ := token
  obtain rfl : value = .null := silent
  obtain rfl : lexeme = kind.bytes := spelled
  rfl

/-- Without its place and respelled, a token that is no constant is its kind. -/
theorem respelled_placeless (genuine : token.Genuine) (other : token.kind ∉ [.number, .string]) :
    (token.relocate Position.forget).respelled = .spelling token.kind := by
  have silent := genuine.silent other
  obtain ⟨kind, lexeme, value, pos⟩ := token
  obtain rfl : value = .null := silent
  rfl

end Token.Genuine

/-- The text of the tree tells what it is, but for places and the spelling of logical operators. -/
structure Expr.Legible (expr : Expr) : Prop where
  readable : expr.shape.Readable
  reads : expr.shape.toExpr = (expr.relocate Position.forget).respelled

structure Stmt.Legible (stmt : Stmt) : Prop where
  readable : stmt.shape.Readable
  reads : stmt.shape.toStmt = (stmt.relocate Position.forget).respelled

private theorem readable_node {head : Bytes} {parts : List Shape} (word : Word head) (each : ∀ part ∈ parts, part.Readable) :
    (Shape.node head parts).Readable :=
  .list (List.forall_mem_cons.mpr ⟨.leaf (.word word), each⟩)

namespace Expr

theorem legible_literal {value : Literal} (readable : Shape.Readable (.constant value)) (pos : Position) :
    (Expr.literal value pos).Legible :=
  ⟨readable, rfl⟩

theorem legible_name {token : Token} (genuine : token.Genuine) (names : token.kind = .identifier) :
    (Expr.name token).Legible where
  readable := genuine.readable_name names
  reads := by
    rw [Expr.relocate, genuine.placeless_name names]
    rfl

theorem legible_assign {target : Token} {value : Expr} (genuine : target.Genuine) (names : target.kind = .identifier)
    (right : value.Legible) : (Expr.assign target value).Legible where
  readable := readable_node (word_nodeKind .assign (by decide)) (by simp [genuine.readable_name names, right.readable])
  reads := by
    rw [Expr.shape, Shape.toExpr_node, Expr.relocate, Expr.respelled, genuine.placeless_name names, ← right.reads]
    exact Expr.ofNode_bytes .assign (by decide) _

theorem legible_ternary {condition first second : Expr} (decision : condition.Legible) (yes : first.Legible)
    (no : second.Legible) : (Expr.ternary condition first second).Legible where
  readable := readable_node (word_other "?:" (by decide)) (by simp [decision.readable, yes.readable, no.readable])
  reads := by
    rw [Expr.shape, Shape.toExpr_node, Expr.relocate, Expr.respelled, ← decision.reads, ← yes.reads, ← no.reads]
    exact Expr.ofNode_other "?:" (by decide) _

theorem legible_logical {left right : Expr} {operator : Token} (one : left.Legible) (genuine : operator.Genuine)
    (joins : operator.kind = .andWord ∨ operator.kind = .orWord) (two : right.Legible) :
    (Expr.logical left operator right).Legible := by
  have known : operator.kind ∈ nodeKinds := by rcases joins with kind | kind <;> simp [kind, nodeKinds]
  have other : operator.kind ∉ [.number, .string] := by rcases joins with kind | kind <;> simp [kind]
  refine ⟨readable_node (word_nodeKind _ known) (by simp [one.readable, two.readable]), ?_⟩
  rw [Expr.shape, Shape.toExpr_node, Expr.relocate, Expr.respelled, genuine.respelled_placeless other, ← one.reads, ← two.reads,
    Expr.ofNode_bytes _ known]
  rcases joins with kind | kind <;> rw [kind] <;> rfl

theorem legible_binary {left right : Expr} {operator : Token} (one : left.Legible) (genuine : operator.Genuine)
    (joins : operator.kind ∈ Parser.betweenSigns) (two : right.Legible) : (Expr.binary left operator right).Legible := by
  have known : Parser.betweenSigns ⊆ nodeKinds := by decide
  have fixed : ∀ kind ∈ Parser.betweenSigns, kind ∉ variedKinds := by decide
  have spelled := genuine.spelled (fixed _ joins)
  constructor
  · rw [Expr.shape, spelled]
    exact readable_node (word_nodeKind _ (known joins)) (by simp [one.readable, two.readable])
  · rw [Expr.shape, Shape.toExpr_node, Expr.relocate, Expr.respelled, genuine.placeless_spelling (fixed _ joins), ← one.reads,
      ← two.reads, spelled, Expr.ofNode_bytes _ (known joins)]
    generalize operator.kind = kind at joins
    simp only [Parser.betweenSigns, List.mem_cons, List.not_mem_nil, or_false] at joins
    rcases joins with rfl | rfl | rfl | rfl | rfl | rfl | rfl | rfl | rfl | rfl <;> rfl

theorem legible_unary {operator : Token} {operand : Expr} (genuine : operator.Genuine)
    (negates : operator.kind ∈ Parser.beforeSigns) (inner : operand.Legible) : (Expr.unary operator operand).Legible := by
  have known : Parser.beforeSigns ⊆ nodeKinds := by decide
  have fixed : ∀ kind ∈ Parser.beforeSigns, kind ∉ variedKinds := by decide
  have spelled := genuine.spelled (fixed _ negates)
  constructor
  · rw [Expr.shape, spelled]
    exact readable_node (word_nodeKind _ (known negates)) (by simpa using inner.readable)
  · rw [Expr.shape, Shape.toExpr_node, Expr.relocate, Expr.respelled, genuine.placeless_spelling (fixed _ negates), ← inner.reads,
      spelled, Expr.ofNode_bytes _ (known negates)]
    generalize operator.kind = kind at negates
    simp only [Parser.beforeSigns, List.mem_cons, List.not_mem_nil, or_false] at negates
    rcases negates with rfl | rfl <;> rfl

theorem legible_group {inner : Expr} (held : inner.Legible) : (Expr.group inner).Legible where
  readable := readable_node (word_other "group" (by decide)) (by simpa using held.readable)
  reads := by
    rw [Expr.shape, Shape.toExpr_node, Expr.relocate, Expr.respelled, ← held.reads]
    exact Expr.ofNode_other "group" (by decide) _

private theorem ofKind_call (callee : Expr) (arguments : List Expr) :
    Expr.ofKind .illegal (.ofString "call") (callee :: arguments) = .call callee (.spelling .rightParen) arguments := by
  rcases arguments with _ | ⟨first, _ | ⟨second, _ | ⟨third, arguments⟩⟩⟩ <;> rfl

theorem legible_call {callee : Expr} {paren : Token} {arguments : List Expr} (called : callee.Legible) (genuine : paren.Genuine)
    (closes : paren.kind = .rightParen) (each : ∀ argument ∈ arguments, argument.Legible) :
    (Expr.call callee paren arguments).Legible where
  readable := by
    refine readable_node (word_other "call" (by decide)) ?_
    simpa [called.readable] using fun argument member => (each argument member).readable
  reads := by
    have same : (arguments.map shape).map Shape.toExpr = (arguments.map (relocate Position.forget)).map respelled := by
      rw [List.map_map, List.map_map]
      exact List.map_congr_left fun argument member => (each argument member).reads
    rw [Expr.shape, Shape.toExpr_node, Expr.relocate, Expr.respelled, genuine.placeless_spelling (by simp [closes, variedKinds]),
      ← called.reads, Expr.ofNode_other "call" (by decide), List.map_cons, ofKind_call, Expr.shapeEach_eq_map, same, closes,
      Expr.respelledEach_eq_map, Expr.relocateEach_eq_map]

end Expr

namespace Stmt

variable {condition : Expr} {body : List Stmt}

theorem legible_expression {value : Expr} (held : value.Legible) : (Stmt.expression value).Legible where
  readable := readable_node (word_nodeKind .semicolon (by decide)) (by simpa using held.readable)
  reads := by
    rw [Stmt.shape, Shape.toStmt_node, Stmt.relocate, Stmt.respelled, ← held.reads]
    exact Stmt.ofNode_bytes .semicolon (by decide) _ _

private theorem optional_readable {value : Option Expr} (held : ∀ expr ∈ value, expr.Legible) :
    ∀ part ∈ (value.map Expr.shape).toList, part.Readable := by
  cases value with
  | none => simp
  | some expr => simpa using (held expr rfl).readable

private theorem optional_reads {value : Option Expr} (held : ∀ expr ∈ value, expr.Legible) :
    (value.map Expr.shape).toList.head?.map Shape.toExpr = (value.map (Expr.relocate Position.forget)).map Expr.respelled := by
  cases value with
  | none => rfl
  | some expr => exact congrArg some (held expr rfl).reads

theorem legible_declare {name : Token} {initial : Option Expr} (genuine : name.Genuine) (names : name.kind = .identifier)
    (value : ∀ expr ∈ initial, expr.Legible) : (Stmt.declare name initial).Legible where
  readable := readable_node (word_nodeKind .varWord (by decide))
    (List.forall_mem_cons.mpr ⟨genuine.readable_name names, optional_readable value⟩)
  reads := by
    rw [Stmt.shape, Shape.toStmt_node, Stmt.relocate, Stmt.respelled, genuine.placeless_name names, ← optional_reads value]
    exact Stmt.ofNode_bytes .varWord (by decide) _ _

theorem legible_returnValue {keyword : Token} {result : Option Expr} (genuine : keyword.Genuine)
    (returns : keyword.kind = .returnWord) (value : ∀ expr ∈ result, expr.Legible) :
    (Stmt.returnValue keyword result).Legible where
  readable := readable_node (word_nodeKind .returnWord (by decide)) (optional_readable value)
  reads := by
    rw [Stmt.shape, Shape.toStmt_node, Stmt.relocate, Stmt.respelled, genuine.placeless_spelling (by simp [returns, variedKinds]),
      ← optional_reads value, returns]
    exact Stmt.ofNode_bytes .returnWord (by decide) _ _

theorem legible_breakLoop {keyword : Token} (genuine : keyword.Genuine) (leaves : keyword.kind = .breakWord) :
    (Stmt.breakLoop keyword).Legible where
  readable := readable_node (word_nodeKind .breakWord (by decide)) (by simp)
  reads := by
    rw [Stmt.shape, Shape.toStmt_node, Stmt.relocate, Stmt.respelled, genuine.placeless_spelling (by simp [leaves, variedKinds]),
      leaves]
    exact Stmt.ofNode_bytes .breakWord (by decide) _ _

theorem legible_continueLoop {keyword : Token} (genuine : keyword.Genuine) (skips : keyword.kind = .continueWord) :
    (Stmt.continueLoop keyword).Legible where
  readable := readable_node (word_nodeKind .continueWord (by decide)) (by simp)
  reads := by
    rw [Stmt.shape, Shape.toStmt_node, Stmt.relocate, Stmt.respelled, genuine.placeless_spelling (by simp [skips, variedKinds]),
      skips]
    exact Stmt.ofNode_bytes .continueWord (by decide) _ _

private theorem parts_readable {stmts : List Stmt} (each : ∀ stmt ∈ stmts, stmt.Legible) :
    ∀ part ∈ Stmt.shapeEach stmts, part.Readable := by
  simpa using fun stmt member => (each stmt member).readable

private theorem parts_read {stmts : List Stmt} (each : ∀ stmt ∈ stmts, stmt.Legible) :
    (Stmt.shapeEach stmts).map Shape.toStmt = Stmt.respelledEach (Stmt.relocateEach Position.forget stmts) := by
  rw [Stmt.shapeEach_eq_map, Stmt.respelledEach_eq_map, Stmt.relocateEach_eq_map, List.map_map, List.map_map]
  exact List.map_congr_left fun stmt member => (each stmt member).reads

theorem legible_block (inner : ∀ stmt ∈ body, stmt.Legible) (pos : Position) : (Stmt.block body pos).Legible where
  readable := readable_node (word_other "block" (by decide)) (parts_readable inner)
  reads := by
    rw [Stmt.shape, Shape.toStmt_node, Stmt.relocate, Stmt.respelled, ← parts_read inner]
    exact Stmt.ofNode_other "block" (by decide) _ _

theorem legible_function {name : Token} {parameters : List Token} (genuine : name.Genuine) (names : name.kind = .identifier)
    (each : ∀ parameter ∈ parameters, parameter.Genuine ∧ parameter.kind = .identifier) (inner : ∀ stmt ∈ body, stmt.Legible) :
    (Stmt.function name parameters body).Legible where
  readable := by
    have list : (Shape.list (parameters.map fun parameter => .word parameter.lexeme)).Readable := by
      refine .list ?_
      simpa using fun parameter member => (each parameter member).1.readable_name (each parameter member).2
    refine readable_node (word_nodeKind .fnWord (by decide)) ?_
    exact List.forall_mem_cons.mpr ⟨genuine.readable_name names, List.forall_mem_cons.mpr ⟨list, parts_readable inner⟩⟩
  reads := by
    have listed : parameters.map (Token.relocate Position.forget) =
        (parameters.map fun parameter => Shape.word parameter.lexeme).map Shape.toName := by
      rw [List.map_map]
      exact List.map_congr_left fun parameter member => (each parameter member).1.placeless_name (each parameter member).2
    rw [Stmt.shape, Shape.toStmt_node, Stmt.relocate, Stmt.respelled, genuine.placeless_name names, ← parts_read inner, listed]
    exact Stmt.ofNode_bytes .fnWord (by decide) _ _

/-- A statement behind a condition, perhaps with another one. -/
private theorem guarded_readable {head : Bytes} {stmt : Stmt} {other : Option Stmt} (word : Word head)
    (decision : condition.Legible) (held : stmt.Legible) (also : ∀ stmt ∈ other, stmt.Legible) :
    (Shape.node head (condition.shape :: stmt.shape :: (other.map Stmt.shape).toList)).Readable := by
  refine readable_node word ?_
  cases other with
  | none => simp [decision.readable, held.readable]
  | some other => simp [decision.readable, held.readable, (also other rfl).readable]

private theorem guarded_reads {other : Option Stmt} (also : ∀ stmt ∈ other, stmt.Legible) :
    ((other.map Stmt.shape).toList.map Shape.toStmt).head? = (other.map (Stmt.relocate Position.forget)).map Stmt.respelled := by
  cases other with
  | none => rfl
  | some other => exact congrArg some (also other rfl).reads

theorem legible_branch {consequence : Stmt} {alternative : Option Stmt} (decision : condition.Legible) (yes : consequence.Legible)
    (no : ∀ stmt ∈ alternative, stmt.Legible) (pos : Position) : (Stmt.branch condition consequence alternative pos).Legible := by
  constructor
  · rw [Stmt.shape_branch]
    exact guarded_readable (word_nodeKind .ifWord (by decide)) decision yes no
  · rw [Stmt.shape_branch, Shape.toStmt_node, Stmt.relocate_branch, Stmt.respelled_branch, ← decision.reads, ← yes.reads,
      ← guarded_reads no]
    exact Stmt.ofNode_bytes .ifWord (by decide) _ _

theorem legible_loop {body : Stmt} {post : Option Stmt} (decision : condition.Legible) (repeated : body.Legible)
    (after : ∀ stmt ∈ post, stmt.Legible) (pos : Position) : (Stmt.loop condition body post pos).Legible := by
  constructor
  · rw [Stmt.shape_loop]
    exact guarded_readable (word_nodeKind .whileWord (by decide)) decision repeated after
  · rw [Stmt.shape_loop, Shape.toStmt_node, Stmt.relocate_loop, Stmt.respelled_loop, ← decision.reads, ← repeated.reads,
      ← guarded_reads after]
    exact Stmt.ofNode_bytes .whileWord (by decide) _ _

end Stmt

namespace Grammar

theorem Separated.subset {parts : List (List Token)} {tokens : List Token} (separated : Separated parts tokens) :
    ∀ part ∈ parts, part ⊆ tokens := by
  induction separated with
  | none => simp
  | last part => simp
  | more _ _ ih =>
    refine List.forall_mem_cons.mpr ⟨List.subset_append_left _ _, fun part member => ?_⟩
    exact fun token inside => List.mem_append_right _ (List.mem_cons_of_mem _ (ih part member inside))

theorem operatorAt_genuine {kind : TokenKind} (other : kind ≠ .identifier) (token : Token) :
    (Token.operatorAt kind token).Genuine :=
  ⟨.leaf .null, fun _ => rfl, fun names => absurd names other, fun _ => rfl⟩

/-- What a short form of an assignment stands for. -/
private theorem legible_counted {target sign : Token} {kind : TokenKind} {value : Expr} (genuine : target.Genuine)
    (names : target.kind = .identifier) (joins : kind ∈ Parser.betweenSigns) (held : value.Legible) :
    (Expr.assign target (.binary (.name target) (.operatorAt kind sign) value)).Legible := by
  have other : ∀ kind ∈ Parser.betweenSigns, kind ≠ .identifier := by decide
  refine Expr.legible_assign genuine names ?_
  exact Expr.legible_binary (Expr.legible_name genuine names) (operatorAt_genuine (other kind joins) sign) joins held

private theorem legible_one (pos : Position) : (Expr.literal (.number 1.0) pos).Legible :=
  Expr.legible_literal (.leaf (.number ⟨false, _, rfl⟩)) pos

private theorem legible_chain {tier : Tier} {left right : Expr} {sign : Token} (one : left.Legible) (genuine : sign.Genuine)
    (joins : sign.kind ∈ tier.operators) (two : right.Legible) : (tier.node left sign right).Legible := by
  cases tier with
  | disjunction => exact Expr.legible_logical one genuine (.inr (List.mem_singleton.mp joins)) two
  | conjunction => exact Expr.legible_logical one genuine (.inl (List.mem_singleton.mp joins)) two
  | equality | comparison | term | factor =>
    refine Expr.legible_binary one genuine ?_ two
    revert joins
    generalize sign.kind = kind
    revert kind
    decide

theorem Expression.legible {phrase : Phrase} {tokens : List Token} {expr : Expr} (derived : Expression phrase tokens expr)
    (genuine : ∀ token ∈ tokens, token.Genuine) : expr.Legible := by
  induction derived with
  | assign name assigns right ih =>
    simp only [List.forall_mem_cons] at genuine
    obtain ⟨target, _, later⟩ := genuine
    exact Expr.legible_assign target name (ih later)
  | compound name assigns right ih =>
    simp only [List.forall_mem_cons] at genuine
    obtain ⟨target, _, later⟩ := genuine
    have signs : ∀ pair ∈ compoundSigns, pair.2 ∈ Parser.betweenSigns := by decide
    exact legible_counted target name (signs _ assigns) (ih later)
  | choice decision asks yes divides no ihCondition ihFirst ihSecond =>
    simp only [List.forall_mem_cons, List.forall_mem_append] at genuine
    obtain ⟨first, _, second, _, third⟩ := genuine
    exact Expr.legible_ternary (ihCondition first) (ihFirst second) (ihSecond third)
  | operator first joins second ihLeft ihRight =>
    simp only [List.forall_mem_cons, List.forall_mem_append] at genuine
    obtain ⟨lefts, sign, rights⟩ := genuine
    exact legible_chain (ihLeft lefts) sign joins (ihRight rights)
  | increment counts name =>
    exact legible_counted (genuine _ (by simp)) name (by decide) (legible_one _)
  | decrement counts name =>
    exact legible_counted (genuine _ (by simp)) name (by decide) (legible_one _)
  | negation negates inner ih =>
    obtain ⟨sign, later⟩ := List.forall_mem_cons.mp genuine
    exact Expr.legible_unary sign negates (ih later)
  | @call tokens listed opening closing callee arguments called opens each few list closes ihCallee ihEach =>
    simp only [List.forall_mem_cons, List.forall_mem_append] at genuine
    obtain ⟨first, _, second, third⟩ := genuine
    refine Expr.legible_call (ihCallee first) third.1 closes fun argument member => ?_
    obtain ⟨item, found, rfl⟩ := List.mem_map.mp member
    exact ihEach item found fun token inside => second token (list.subset _ (List.mem_map_of_mem found) inside)
  | group opens inner closes ih =>
    simp only [List.forall_mem_cons, List.forall_mem_append] at genuine
    obtain ⟨_, held, _⟩ := genuine
    exact Expr.legible_group (ih held)
  | truth word => exact Expr.legible_literal (.leaf (.bool true)) _
  | falsity word => exact Expr.legible_literal (.leaf (.bool false)) _
  | null word => exact Expr.legible_literal (.leaf .null) _
  | constant spelled => exact Expr.legible_literal (genuine _ (by simp)).constant _
  | name names => exact Expr.legible_name (genuine _ (by simp)) names
  | unassigned inner ih | unchosen inner ih | operand inner ih | unsigned inner ih | uncalled inner ih => exact ih genuine

theorem Optional.legible {tokens : List Token} {value : Option Expr} (derived : Optional tokens value)
    (genuine : ∀ token ∈ tokens, token.Genuine) : ∀ expr ∈ value, expr.Legible := by
  cases derived with
  | absent => simp
  | present inner => simpa using inner.legible genuine

theorem VariableDeclaration.legible {tokens : List Token} {stmt : Stmt} (derived : VariableDeclaration tokens stmt)
    (genuine : ∀ token ∈ tokens, token.Genuine) : stmt.Legible := by
  cases derived with
  | bare declares names ends => exact Stmt.legible_declare (genuine _ (by simp)) names (by simp)
  | initialized declares names assigns value ends =>
    simp only [List.forall_mem_cons, List.forall_mem_append] at genuine
    obtain ⟨_, name, _, held, _⟩ := genuine
    exact Stmt.legible_declare name names (by simpa using value.legible held)

theorem Beginning.legible {tokens : List Token} {stmt : Stmt} (derived : Beginning tokens stmt)
    (genuine : ∀ token ∈ tokens, token.Genuine) : stmt.Legible := by
  cases derived with
  | declare declared => exact declared.legible genuine
  | expression value ends => exact Stmt.legible_expression (value.legible (List.forall_mem_append.mp genuine).1)

private theorem legible_forLoop {word : Token} {condition increment : Option Expr} {body : Stmt}
    (decision : ∀ expr ∈ condition, expr.Legible) (step : ∀ expr ∈ increment, expr.Legible) (repeated : body.Legible) :
    (forLoop word condition increment body).Legible := by
  refine Stmt.legible_loop ?_ repeated ?_ word.pos
  · cases condition with
    | none => exact Expr.legible_literal (.leaf (.bool true)) word.pos
    | some condition => exact decision condition rfl
  · cases increment with
    | none => simp
    | some increment => simpa using Stmt.legible_expression (step increment rfl)

/-- The tokens of the items are among those of the whole. -/
private theorem items_genuine {items : List (List Token × Stmt)} (genuine : ∀ token ∈ (items.map Prod.fst).flatten, token.Genuine)
    {item : List Token × Stmt} (member : item ∈ items) : ∀ token ∈ item.1, token.Genuine :=
  fun token inside => genuine token (List.mem_flatten.mpr ⟨item.1, List.mem_map_of_mem member, inside⟩)

/-- A derivation from genuine tokens gives a legible tree. -/
theorem Statement.legible {nearest : Prop} {form : Form} {tokens : List Token} {stmt : Stmt}
    (derived : Statement nearest form tokens stmt) (genuine : ∀ token ∈ tokens, token.Genuine) : stmt.Legible := by
  induction derived with
  | declare declared => exact declared.legible genuine
  | function declares names opens each few list closes begins inner ends ih =>
    simp only [List.forall_mem_cons, List.forall_mem_append] at genuine
    obtain ⟨_, name, _, parameters, _, _, items, _⟩ := genuine
    refine Stmt.legible_function name names (fun parameter member => ⟨?_, each parameter member⟩) fun stmt member => ?_
    · exact parameters parameter (list.subset _ (List.mem_map_of_mem member) List.mem_cons_self)
    · obtain ⟨item, found, rfl⟩ := List.mem_map.mp member
      exact ih item found (items_genuine items found)
  | statement inner ih => exact ih genuine
  | block begins inner ends ih =>
    simp only [List.forall_mem_cons, List.forall_mem_append] at genuine
    obtain ⟨_, items, _⟩ := genuine
    refine Stmt.legible_block (fun stmt member => ?_) _
    obtain ⟨item, found, rfl⟩ := List.mem_map.mp member
    exact ih item found (items_genuine items found)
  | branch asks opens decision closes yes ih =>
    simp only [List.forall_mem_cons, List.forall_mem_append] at genuine
    obtain ⟨_, _, condition, _, thens⟩ := genuine
    exact Stmt.legible_branch (decision.legible condition) (ih thens) (by simp) _
  | branchElse asks opens decision closes yes owner divides no ihYes ihNo =>
    simp only [List.forall_mem_cons, List.forall_mem_append] at genuine
    obtain ⟨_, _, condition, _, thens, _, elses⟩ := genuine
    exact Stmt.legible_branch (decision.legible condition) (ihYes thens) (by simpa using ihNo elses) _
  | whileLoop loops opens decision closes repeated ih =>
    simp only [List.forall_mem_cons, List.forall_mem_append] at genuine
    obtain ⟨_, _, condition, _, bodies⟩ := genuine
    exact Stmt.legible_loop (decision.legible condition) (ih bodies) (by simp) _
  | forLoopFrom loops opens beginning decision divides step closes repeated ih =>
    simp only [List.forall_mem_cons, List.forall_mem_append] at genuine
    obtain ⟨_, _, starts, conditions, _, increments, _, bodies⟩ := genuine
    refine Stmt.legible_block (List.forall_mem_cons.mpr ⟨beginning.legible starts, fun stmt member => ?_⟩) _
    obtain rfl := List.mem_singleton.mp member
    exact legible_forLoop (decision.legible conditions) (step.legible increments) (ih bodies)
  | forLoop loops opens begins decision divides step closes repeated ih =>
    simp only [List.forall_mem_cons, List.forall_mem_append] at genuine
    obtain ⟨_, _, _, conditions, _, increments, _, bodies⟩ := genuine
    exact legible_forLoop (decision.legible conditions) (step.legible increments) (ih bodies)
  | breakLoop leaves ends => exact Stmt.legible_breakLoop (genuine _ (by simp)) leaves
  | continueLoop skips ends => exact Stmt.legible_continueLoop (genuine _ (by simp)) skips
  | returnValue returns value ends =>
    simp only [List.forall_mem_cons, List.forall_mem_append] at genuine
    obtain ⟨word, result, _⟩ := genuine
    exact Stmt.legible_returnValue word returns (value.legible result)
  | expression value ends => exact Stmt.legible_expression (value.legible (List.forall_mem_append.mp genuine).1)

theorem Declarations.legible {nearest : Prop} {tokens : List Token} {stmts : List Stmt}
    (derived : Declarations nearest tokens stmts) (genuine : ∀ token ∈ tokens, token.Genuine) : ∀ stmt ∈ stmts, stmt.Legible := by
  obtain ⟨items, each, rfl, rfl⟩ := derived
  intro stmt member
  obtain ⟨item, found, rfl⟩ := List.mem_map.mp member
  exact (each item found).legible (items_genuine genuine found)

end Grammar
end Treewalk
