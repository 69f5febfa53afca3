import Treewalk.Proofs.ParsedTrees
import Treewalk.Proofs.QuotedText
import Treewalk.Proofs.RunKinship
import Treewalk.Proofs.SourceCut

/-! Trees that come from a source. They have no holes, their operators all have a meaning, and their
constants are of the language. A tree made elsewhere may lack each of this. -/

namespace Treewalk

/-- What is shown for a tree where a node is missing or a constant is not known. -/
def placeholders : List Bytes :=
  [.ofString "<unknown expr>", .ofString "<unknown stmt>", .ofString "<literal>"]

def Token.Spelled (token : Token) : Prop :=
  token.value ≠ .foreign ∧ token.lexeme ∉ placeholders

def Expr.Spelled : Expr → Prop
  | literal value _ => value ≠ .foreign
  | name token => token.Spelled
  | binary _ operator _ => operator.kind ∈ Operator.binaryKinds
  | unary operator _ => operator.kind ∈ Operator.unaryKinds
  | hole => False
  | assign _ _ | ternary _ _ _ | logical _ _ _ | group _ | call _ _ _ => True

inductive Expr.Sound : Expr → Prop where
  | node {expr : Expr} (spelled : expr.Spelled) (parts : ∀ part ∈ expr.parts, part.Sound) : Sound expr

inductive Stmt.Sound : Stmt → Prop where
  | node {stmt : Stmt} (filled : stmt ≠ .hole) (exprs : ∀ expr ∈ stmt.exprs, expr.Sound)
      (parts : ∀ place, ∀ part ∈ stmt.parts place, part.2.Sound) : Sound stmt

namespace Expr.Sound

variable {expr : Expr}

theorem spelled : expr.Sound → expr.Spelled
  | node spelled _ => spelled

theorem parts : expr.Sound → ∀ part ∈ expr.parts, part.Sound
  | node _ parts => parts

end Expr.Sound

namespace Stmt.Sound

variable {stmt : Stmt}

theorem filled : stmt.Sound → stmt ≠ .hole
  | node filled _ _ => filled

theorem exprs : stmt.Sound → ∀ expr ∈ stmt.exprs, expr.Sound
  | node _ exprs _ => exprs

theorem parts : stmt.Sound → ∀ place, ∀ part ∈ stmt.parts place, part.2.Sound
  | node _ _ parts => parts

end Stmt.Sound

theorem placeholder_start {text : Bytes} (placeholder : text ∈ placeholders) :
    text.head? = some 0x3C ∧ 2 < text.length := by
  simp only [placeholders, List.mem_cons, List.not_mem_nil, or_false] at placeholder
  rcases placeholder with rfl | rfl | rfl <;> decide

/-- Only one character starts with this byte. -/
private theorem utf8_angle {c : Char} {more : Bytes} (starts : (utf8 c ++ more).head? = some 0x3C) : c = '<' := by
  have inside : 0x3C ∈ utf8 c := by
    cases same : utf8 c with
    | nil => exact absurd same (Glyph.bytes_ne_nil (.char c))
    | cons byte others =>
      rw [same] at starts
      obtain rfl : byte = 0x3C := Option.some.inj starts
      exact List.mem_cons_self
  exact Char.toNat_inj.mp (utf8_ascii inside (by decide))

theorem Token.endAt_spelled (pos : Position) : (Token.endAt pos).Spelled :=
  ⟨Literal.noConfusion, by simp [Token.endAt, placeholders, Bytes.ofString, utf8]⟩

theorem Token.operatorAt_spelled (kind : TokenKind) (token : Token) : (Token.operatorAt kind token).Spelled := by
  refine ⟨Literal.noConfusion, ?_⟩
  change kind.bytes ∉ placeholders
  cases kind <;> decide

namespace Lexer

private theorem numberFinding_value {whole fraction : List Glyph} {kind : TokenKind} {value : Literal}
    (finds : numberFinding whole fraction = .token kind value) : value ≠ .foreign := by
  unfold numberFinding at finds
  dsimp only at finds
  split at finds <;> cases finds
  exact Literal.noConfusion

private theorem mark_value {c : Char} {rest : List Glyph} {kind : TokenKind} {value : Literal}
    (finds : (mark c rest).1 = .token kind value) : value ≠ .foreign := by
  unfold mark at finds
  dsimp only at finds
  split at finds <;> cases finds <;> exact Literal.noConfusion

private theorem classify_value {glyph : Glyph} {rest : List Glyph} {kind : TokenKind} {value : Literal}
    (finds : (classify glyph rest).1 = .token kind value) : value ≠ .foreign := by
  cases glyph with
  | stray byte => cases finds
  | char c =>
    rw [classify.eq_def] at finds
    dsimp only at finds
    split at finds
    · cases finds
    · split at finds <;> cases finds
    split at finds
    · cases finds
    split at finds
    · cases finds
      exact Literal.noConfusion
    split at finds
    · rw [number_eq] at finds
      split at finds <;> exact numberFinding_value finds
    split at finds
    · unfold quoted at finds
      split at finds
      · cases finds
      · split at finds <;> cases finds
        exact Literal.noConfusion
    · exact mark_value finds

private theorem mark_angle (rest : List Glyph) :
    (Glyph.encode (.char '<' :: rest.take (mark '<' rest).2)).length ≤ 2 := by
  rcases rest with _ | ⟨d | byte, rest⟩
  · exact Nat.le_succ 1
  · cases found : doubleMark '<' d with
    | none =>
      simp only [mark, found]
      exact Nat.le_succ 1
    | some kind =>
      obtain rfl : d = '=' := by
        unfold doubleMark at found
        split at found <;> simp_all
      exact Nat.le_refl 2
  · exact Nat.le_succ 1

/-- A placeholder starts as a comparison does, and is longer. -/
private theorem classify_lexeme {glyph : Glyph} {rest : List Glyph} {kind : TokenKind} {value : Literal}
    (finds : (classify glyph rest).1 = .token kind value) :
    Glyph.encode (glyph :: rest.take (classify glyph rest).2) ∉ placeholders := by
  intro placeholder
  obtain ⟨starts, long⟩ := placeholder_start placeholder
  cases glyph with
  | stray byte => cases finds
  | char c =>
    obtain rfl := utf8_angle starts
    have marks : classify (.char '<') rest = mark '<' rest := by
      rw [classify_plain (by simp)]
      rfl
    rw [marks] at long
    exact absurd long (Nat.not_lt_of_le (mark_angle rest))

private theorem pieces_spelled {glyphs : List Glyph} {piece : Piece} (member : piece ∈ pieces glyphs) {kind : TokenKind}
    {value : Literal} (finds : piece.finding = .token kind value) :
    value ≠ .foreign ∧ Glyph.encode piece.glyphs ∉ placeholders := by
  fun_induction pieces glyphs with
  | case1 => cases member
  | case2 glyph rest finding length same ih =>
    rcases List.mem_cons.mp member with rfl | later
    · have token := (congrArg Prod.fst same).trans finds
      have lexeme := classify_lexeme token
      rw [same] at lexeme
      exact ⟨classify_value token, lexeme⟩
    · exact ih later

end Lexer

/-- The tokens of a source are spelled. -/
theorem scan_spelled (source : Bytes) : ∀ token ∈ (scan source).tokens, token.Spelled := by
  have counted : ∀ (pieces : List Piece) (start : Position),
      (∀ piece ∈ pieces, ∀ kind value, piece.finding = .token kind value →
        value ≠ .foreign ∧ Glyph.encode piece.glyphs ∉ placeholders) →
      ∀ token ∈ (Scan.ofPieces start pieces).tokens, token.Spelled := by
    intro pieces
    induction pieces with
    | nil =>
      intro start _ token inside
      cases List.mem_singleton.mp inside
      exact Token.endAt_spelled start
    | cons piece rest ih =>
      intro start each token inside
      obtain ⟨here, later⟩ := List.forall_mem_cons.mp each
      have others := ih (start.afterAll piece.glyphs) later
      simp only [Scan.ofPieces, Scan.add] at inside
      split at inside
      case h_2 kind value finds =>
        rcases List.mem_cons.mp inside with rfl | after
        · exact here kind value finds
        · exact others token after
      all_goals exact others token inside
  exact counted _ _ fun piece member kind value finds => Lexer.pieces_spelled member finds

namespace Parser

private theorem betweenSigns_known {kind : TokenKind} (sign : kind ∈ betweenSigns) : kind ∈ Operator.binaryKinds := by
  revert sign
  cases kind <;> decide

private theorem beforeSigns_known {kind : TokenKind} (sign : kind ∈ beforeSigns) : kind ∈ Operator.unaryKinds := by
  revert sign
  cases kind <;> decide

theorem building_sound : (building Token.Spelled Expr.Sound Stmt.Sound).KeepsTrees where
  kind same := by rw [same.1]
  lexeme same := by rw [same.1]
  operatorAt := by
    rintro t _ kind ⟨rfl, _⟩
    exact ⟨rfl, Token.operatorAt_spelled kind _⟩
  constant := by
    rintro t _ value known ⟨rfl, _⟩
    exact ⟨rfl, .node known (by simp [Expr.parts])⟩
  spelled := by
    rintro t _ ⟨rfl, spelled⟩
    exact ⟨rfl, .node spelled.1 (by simp [Expr.parts])⟩
  name := by
    rintro t _ ⟨rfl, spelled⟩
    exact ⟨rfl, .node spelled (by simp [Expr.parts])⟩
  target := by
    rintro _ f ⟨rfl, sound⟩
    cases f with
    | name t => exact .inl ⟨t, t, rfl, rfl, rfl, sound.spelled⟩
    | _ => exact .inr ⟨fun _ => Expr.noConfusion, fun _ => Expr.noConfusion⟩
  assign := by
    rintro t _ e _ ⟨rfl, _⟩ ⟨rfl, value⟩
    exact ⟨rfl, .node trivial (by simpa [Expr.parts] using value)⟩
  ternary := by
    rintro c _ e _ g _ ⟨rfl, condition⟩ ⟨rfl, first⟩ ⟨rfl, second⟩
    exact ⟨rfl, .node trivial (by simp [Expr.parts, condition, first, second])⟩
  logical := by
    rintro e _ t _ g _ ⟨rfl, left⟩ ⟨rfl, _⟩ ⟨rfl, right⟩
    exact ⟨rfl, .node trivial (by simp [Expr.parts, left, right])⟩
  binary := by
    rintro e _ t _ g _ ⟨rfl, left⟩ ⟨rfl, _⟩ sign ⟨rfl, right⟩
    exact ⟨rfl, .node (betweenSigns_known sign) (by simp [Expr.parts, left, right])⟩
  unary := by
    rintro t _ e _ ⟨rfl, _⟩ sign ⟨rfl, operand⟩
    exact ⟨rfl, .node (beforeSigns_known sign) (by simp [Expr.parts, operand])⟩
  group := by
    rintro e _ ⟨rfl, inner⟩
    exact ⟨rfl, .node trivial (by simp [Expr.parts, inner])⟩
  call := by
    rintro e _ t _ es _ ⟨rfl, callee⟩ ⟨rfl, _⟩ each
    obtain ⟨rfl, arguments⟩ := forall₂_same each
    exact ⟨rfl, .node trivial (List.forall_mem_cons.mpr ⟨callee, arguments⟩)⟩
  expression := by
    rintro e _ ⟨rfl, value⟩
    exact ⟨rfl, .node Stmt.noConfusion (by simp [Stmt.exprs, value]) (by simp [Stmt.parts])⟩
  declare := by
    rintro t _ e _ ⟨rfl, _⟩ each
    obtain ⟨rfl, initial⟩ := rel_same each
    exact ⟨rfl, .node Stmt.noConfusion (by simpa [Stmt.exprs] using initial) (by simp [Stmt.parts])⟩
  block := by
    rintro t _ ss _ ⟨rfl, _⟩ each
    obtain ⟨rfl, body⟩ := forall₂_same each
    exact ⟨rfl, .node Stmt.noConfusion (by simp [Stmt.exprs]) fun _ => by simpa [Stmt.parts] using body⟩
  branch := by
    rintro e _ s _ a _ t _ ⟨rfl, condition⟩ ⟨rfl, consequence⟩ each ⟨rfl, _⟩
    obtain ⟨rfl, alternative⟩ := rel_same each
    refine ⟨rfl, .node Stmt.noConfusion (by simp [Stmt.exprs, condition]) fun _ => ?_⟩
    simpa [Stmt.parts, consequence] using alternative
  loop := by
    rintro e _ s _ a _ t _ ⟨rfl, condition⟩ ⟨rfl, body⟩ each ⟨rfl, _⟩
    obtain ⟨rfl, post⟩ := rel_same each
    refine ⟨rfl, .node Stmt.noConfusion (by simp [Stmt.exprs, condition]) fun _ => ?_⟩
    simpa [Stmt.parts, body] using post
  breakLoop := by
    rintro t _ ⟨rfl, _⟩
    exact ⟨rfl, .node Stmt.noConfusion (by simp [Stmt.exprs]) (by simp [Stmt.parts])⟩
  continueLoop := by
    rintro t _ ⟨rfl, _⟩
    exact ⟨rfl, .node Stmt.noConfusion (by simp [Stmt.exprs]) (by simp [Stmt.parts])⟩
  function := by
    rintro t _ ts _ ss _ ⟨rfl, _⟩ names each
    obtain ⟨rfl, _⟩ := forall₂_same names
    obtain ⟨rfl, body⟩ := forall₂_same each
    exact ⟨rfl, .node Stmt.noConfusion (by simp [Stmt.exprs]) fun _ => by simpa [Stmt.parts] using body⟩
  returnValue := by
    rintro t _ e _ ⟨rfl, _⟩ each
    obtain ⟨rfl, result⟩ := rel_same each
    exact ⟨rfl, .node Stmt.noConfusion (by simpa [Stmt.exprs] using result) (by simp [Stmt.parts])⟩

end Parser

/-- Every statement of a source is sound, also where the source has errors. -/
theorem Program.ofSource_sound (source : Bytes) : ∀ stmt ∈ (Program.ofSource source).statements, stmt.Sound :=
  Parser.ofTokens_built Parser.building_sound Token.endAt_spelled (scan_spelled source)

end Treewalk
