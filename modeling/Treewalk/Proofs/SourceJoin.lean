import Treewalk.Proofs.PlainRun
import Treewalk.Proofs.ProgramGrammar
import Treewalk.Proofs.SourceCut

/-! Joining sources at a newline. A newline at the end of a source changes nothing, and valid sources
that are joined are read one after another, whatever the places of their tokens are now. -/

namespace Treewalk

namespace Lexer

variable (front : List Glyph)

theorem head_trailing {c : Char} (other : c ≠ '\n') :
    (front ++ [newline]).head? = some (.char c) ↔ front.head? = some (.char c) := by
  cases front with
  | nil => simp [newline, other.symm]
  | cons glyph front => rfl

theorem lineLength_trailing : (lineLength (front ++ [newline]) = lineLength front ∧ lineLength front ≤ front.length) ∨
    (lineLength front = front.length ∧ lineLength (front ++ [newline]) = front.length + 1) := by
  induction front with
  | nil => exact .inr ⟨rfl, rfl⟩
  | cons glyph front ih =>
    simp only [List.cons_append, lineLength, List.length_cons]
    split
    · exact .inl ⟨rfl, by omega⟩
    · omega

theorem commentLength?_trailing : commentLength? (front ++ [newline]) = commentLength? front := by
  induction front with
  | nil => rfl
  | cons glyph front ih =>
    rw [List.cons_append, commentLength?_cons, commentLength?_cons, ih]
    simp only [head_trailing front (by decide : '/' ≠ '\n')]

theorem commentLength?_le {length : Nat} (closed : commentLength? front = some length) : length ≤ front.length := by
  rw [← commentLength?_trailing] at closed
  exact (commentLength?_newline front [] closed).2

theorem quotation?_trailing : quotation? (front ++ [newline]) = quotation? front := by
  induction front using quotation?.induct with
  | case1 => simp [quotation?, newline]
  | case2 rest => simp only [List.cons_append, quotation?]
  | case3 glyph rest ih => simp only [List.cons_append, quotation?, ih]
  | case4 glyph rest unquoted unescaped ih =>
    by_cases escape : glyph = .char '\\'
    · cases rest with
      | nil => simp [escape, quotation?]
      | cons next rest => exact absurd rfl (unescaped next rest escape)
    · rw [List.cons_append, quotation?_plain unquoted escape, quotation?_plain unquoted escape, ih]

/-- A piece is what it was before the newline came; only a comment at the end, and what is open there,
takes the newline too. -/
def Trailing (shorter longer : Finding × Nat) (length : Nat) : Prop :=
  longer.1 = shorter.1 ∧ ((longer.2 = shorter.2 ∧ shorter.2 ≤ length) ∨
    ((shorter.1 = .blank ∨ shorter.1.isOpen = true) ∧ shorter.2 = length ∧ longer.2 = length + 1))

theorem quoted_trailing : Trailing (quoted front) (quoted (front ++ [newline])) front.length := by
  unfold quoted
  rw [quotation?_trailing]
  cases closed : quotation? front with
  | none => exact ⟨rfl, .inr ⟨.inr rfl, rfl, by simp⟩⟩
  | some found =>
    have inside : found.length ≤ front.length := by
      rw [← quotation?_trailing] at closed
      exact (quotation?_newline front [] closed).2
    dsimp only
    split <;> exact ⟨rfl, .inl ⟨rfl, inside⟩⟩

theorem classify_trailing (glyph : Glyph) :
    Trailing (classify glyph front) (classify glyph (front ++ [newline])) front.length := by
  cases glyph with
  | stray byte => exact ⟨rfl, .inl ⟨rfl, Nat.zero_le _⟩⟩
  | char c =>
    by_cases plain : c = '/' ∧ (front.head? = some (.char '/') ∨ front.head? = some (.char '*'))
    · obtain ⟨rfl, starts⟩ := plain
      cases front with
      | nil => simp at starts
      | cons next front =>
        simp only [List.head?_cons, Option.some.injEq] at starts
        rcases starts with rfl | rfl
        · simp only [List.cons_append, classify, List.length_cons]
          refine ⟨rfl, ?_⟩
          rcases lineLength_trailing front with ⟨same, inside⟩ | ⟨all, more⟩
          · exact .inl ⟨by rw [same], by omega⟩
          · exact .inr ⟨.inl rfl, by rw [all], by rw [more]⟩
        · simp only [List.cons_append, classify, commentLength?_trailing, List.length_cons]
          cases closed : commentLength? front with
          | none => exact ⟨rfl, .inr ⟨.inr rfl, rfl, by simp⟩⟩
          | some length =>
            have inside := commentLength?_le front closed
            exact ⟨rfl, .inl ⟨rfl, by simp only; omega⟩⟩
    · have unchanged : ¬ (c = '/' ∧ ((front ++ [newline]).head? = some (.char '/') ∨
          (front ++ [newline]).head? = some (.char '*'))) := by
        rwa [head_trailing front (by decide), head_trailing front (by decide)]
      rw [classify_plain plain, classify_plain unchanged]
      split
      · exact ⟨rfl, .inl ⟨rfl, Nat.zero_le _⟩⟩
      split
      · rw [word_newline]
        exact ⟨rfl, .inl ⟨rfl, runLength_le front _⟩⟩
      split
      · rw [number_newline]
        exact ⟨rfl, .inl ⟨rfl, number_le front _⟩⟩
      split
      · exact quoted_trailing front
      · rw [mark_newline]
        exact ⟨rfl, .inl ⟨rfl, mark_le front c⟩⟩

end Lexer

def Finding.isSound : Finding → Bool
  | blank | token .. => true
  | _ => false

def Piece.token? (piece : Piece) : Option Token :=
  match piece.finding with
  | .token kind value => some { kind, lexeme := Glyph.encode piece.glyphs, value }
  | _ => none

theorem Piece.token?_eq_none {piece : Piece} (other : ∀ kind value, piece.finding ≠ .token kind value) :
    piece.token? = none := by
  unfold token?
  split
  next same => exact absurd same (other _ _)
  next => rfl

namespace Lexer

/-- A newline at the end adds no token and no error. -/
theorem pieces_trailing (front : List Glyph) :
    (pieces (front ++ [newline])).filterMap Piece.token? = (pieces front).filterMap Piece.token? ∧
      (pieces (front ++ [newline])).all (·.finding.isSound) = (pieces front).all (·.finding.isSound) := by
  induction long : front.length using Nat.strongRecOn generalizing front with
  | _ size ih =>
    cases front with
    | nil =>
      simp [pieces_cons, newline, classify, pieces, Piece.token?, Finding.isSound, show Text.isBlank '\n' = true by decide]
    | cons glyph front =>
      rw [List.cons_append, pieces_cons, pieces_cons glyph front]
      obtain ⟨finding, lengths⟩ := classify_trailing front glyph
      rcases lengths with ⟨same, inside⟩ | ⟨silent, all, more⟩
      · rw [finding, same, List.take_append_of_le_length inside, List.drop_append_of_le_length inside]
        have shorter : (front.drop (classify glyph front).2).length < size := by
          rw [← long, List.length_drop, List.length_cons]
          omega
        obtain ⟨tokens, sound⟩ := ih _ shorter _ rfl
        rw [List.filterMap_cons, List.filterMap_cons, tokens, List.all_cons, List.all_cons, sound]
        exact ⟨rfl, rfl⟩
      · have whole : (front ++ [newline]).length = front.length + 1 := by simp
        have untoken : ∀ kind value, (classify glyph front).1 ≠ .token kind value := by
          intro kind value same
          rcases silent with blank | opens
          · rw [blank] at same
            cases same
          · rw [same] at opens
            cases opens
        rw [finding, all, more, ← whole, List.drop_length, List.drop_length, pieces, List.filterMap_cons,
          List.filterMap_cons, Piece.token?_eq_none untoken, Piece.token?_eq_none untoken, List.all_cons, List.all_cons]
        exact ⟨rfl, rfl⟩

theorem pieces_blank {glyphs : List Glyph} (blank : glyphs.all (Glyph.satisfies Text.isBlank) = true) :
    (pieces glyphs).all (·.finding.isSound) = true ∧ (pieces glyphs).filterMap Piece.token? = [] := by
  induction glyphs with
  | nil =>
    rw [pieces]
    exact ⟨rfl, rfl⟩
  | cons glyph rest ih =>
    rw [List.all_cons, Bool.and_eq_true] at blank
    obtain ⟨first, others⟩ := blank
    cases glyph with
    | stray byte => cases first
    | char c =>
      have space : Text.isBlank c = true := first
      have plain : ¬ (c = '/' ∧ (rest.head? = some (.char '/') ∨ rest.head? = some (.char '*'))) := by
        intro found
        obtain ⟨rfl, _⟩ := found
        exact absurd space (by decide)
      have found : classify (.char c) rest = (.blank, 0) := by
        rw [classify_plain plain, if_pos space]
      rw [pieces_cons, found]
      exact ih others

end Lexer

namespace Scan

/-- The tokens but for the last one, and whether there are errors, do not depend on the places. -/
theorem ofPieces_anywhere (start : Position) (pieces : List Piece)
    (inner : ∀ piece ∈ pieces, ∀ value, piece.finding ≠ .token .eof value) :
    ∃ tokens, ∃ stop : Position, (ofPieces start pieces).tokens = tokens ++ [.endAt stop] ∧
      (∀ token ∈ tokens, token.isEnd = false) ∧
      tokens.map (Token.relocate Position.forget) = pieces.filterMap Piece.token? ∧
      ((ofPieces start pieces).errors = [] ↔ pieces.all (·.finding.isSound) = true) := by
  induction pieces generalizing start with
  | nil => exact ⟨[], start, rfl, by simp, rfl, by simp [ofPieces]⟩
  | cons piece pieces ih =>
    obtain ⟨tokens, stop, same, plain, forgotten, clean⟩ := ih (start.afterAll piece.glyphs)
      fun other member => inner other (List.mem_cons_of_mem _ member)
    have here := inner piece List.mem_cons_self
    obtain ⟨glyphs, finding⟩ := piece
    cases finding with
    | blank => exact ⟨tokens, stop, same, plain, forgotten, clean⟩
    | token kind value =>
      have other : kind ≠ .eof := by
        intro same
        exact here value (by rw [same])
      refine ⟨{ kind, lexeme := Glyph.encode glyphs, value, pos := start } :: tokens, stop, ?_, ?_, ?_, clean⟩
      · simp [ofPieces, add, addToken, same]
      · simpa [Token.isEnd, other] using plain
      · rw [List.map_cons, forgotten]
        rfl
    | _ => exact ⟨tokens, stop, same, plain, forgotten, by simp [ofPieces, add, addError, Finding.isSound]⟩

end Scan

namespace Grammar

theorem Declarations.append {nearest : Prop} {first second : List Token} {stmts others : List Stmt}
    (one : Declarations nearest first stmts) (two : Declarations nearest second others) :
    Declarations nearest (first ++ second) (stmts ++ others) := by
  obtain ⟨items, each, rfl, rfl⟩ := one
  obtain ⟨more, eachMore, rfl, rfl⟩ := two
  refine ⟨items ++ more, ?_, by simp, by simp⟩
  intro item member
  rcases List.mem_append.mp member with early | late
  · exact each item early
  · exact eachMore item late

end Grammar
end Treewalk

namespace Treewalk.Program
open Treewalk.Grammar Treewalk.Parser

/-- Moved tokens give moved trees, and errors in the same cases. -/
theorem ofTokens_relocate {tokens : List Token} {last : Token} (ends : last.isEnd = true)
    (inner : ∀ token ∈ tokens, token.isEnd = false) (move : Position → Position) :
    (ofTokens (tokens.map (Token.relocate move) ++ [last.relocate move])).statements =
        (ofTokens (tokens ++ [last])).statements.map (Stmt.relocate move) ∧
      (ofTokens (tokens.map (Token.relocate move) ++ [last.relocate move])).errors =
        (ofTokens (tokens ++ [last])).errors.map (Diagnostic.relocate move) := by
  have plain : ∀ token ∈ tokens.map (Token.relocate move), token.isEnd = false := by
    intro token member
    obtain ⟨other, found, rfl⟩ := List.mem_map.mp member
    exact inner other found
  obtain ⟨least, reads⟩ := ofTokens_declarations ends inner
  have endsMoved : (last.relocate move).isEnd = true := ends
  obtain ⟨enough, readsMoved⟩ := ofTokens_declarations endsMoved plain
  have moved := declarations_relocate false (Nat.le_refl (least + enough)) last tokens move
  rw [reads _ (Nat.le_add_right least enough)] at moved
  obtain ⟨_, stmts, rfl, same⟩ := moved
  rw [readsMoved _ (Nat.le_add_left enough least), Parsed.done.injEq] at same
  exact ⟨same.1, same.2.1⟩

/-- The source is valid, and these are its statements without their places. -/
def IsRead (source : Bytes) (stmts : List Stmt) : Prop :=
  (ofSource source).errors = [] ∧ (ofSource source).statements.map (Stmt.relocate Position.forget) = stmts

theorem isRead_iff {source : Bytes} {stmts : List Stmt} : IsRead source stmts ↔
    (Lexer.pieces (Glyph.decode source)).all (·.finding.isSound) = true ∧
      Declarations True ((Lexer.pieces (Glyph.decode source)).filterMap Piece.token?) stmts := by
  obtain ⟨tokens, stop, same, inner, forgotten, clean⟩ := Scan.ofPieces_anywhere .start
    (Lexer.pieces (Glyph.decode source)) fun piece member => Lexer.pieces_kind member
  have innerMoved : ∀ token ∈ tokens.map (Token.relocate Position.forget), token.isEnd = false := by
    intro token member
    obtain ⟨other, found, rfl⟩ := List.mem_map.mp member
    exact inner other found
  have ends : (Token.endAt stop).isEnd = true := rfl
  obtain ⟨sameStmts, sameErrors⟩ := ofTokens_relocate ends inner Position.forget
  have endsMoved : ((Token.endAt stop).relocate Position.forget).isEnd = true := rfl
  have derives := ofTokens_derives endsMoved innerMoved stmts
  rw [sameStmts, sameErrors, List.map_eq_nil_iff, forgotten] at derives
  unfold IsRead ofSource scan
  dsimp only
  rw [same, List.append_eq_nil_iff, clean, derives, and_assoc]

theorem isRead_of_valid {source : Bytes} (valid : (ofSource source).errors = []) :
    IsRead source ((ofSource source).statements.map (Stmt.relocate Position.forget)) :=
  ⟨valid, rfl⟩

/-- A newline at the end changes nothing. -/
theorem isRead_newline {source : Bytes} {stmts : List Stmt} :
    IsRead (source ++ Bytes.newline) stmts ↔ IsRead source stmts := by
  obtain ⟨tokens, sound⟩ := Lexer.pieces_trailing (Glyph.decode source)
  rw [isRead_iff, isRead_iff, Lexer.decode_ended, tokens, sound]

theorem valid_newline {source : Bytes} :
    (ofSource (source ++ Bytes.newline)).errors = [] ↔ (ofSource source).errors = [] := by
  constructor
  · intro valid
    exact (isRead_newline.mp (isRead_of_valid valid)).1
  · intro valid
    exact (isRead_newline.mpr (isRead_of_valid valid)).1

/-- Valid sources joined at a newline are read one after another. -/
theorem IsRead.append {front back : Bytes} {stmts others : List Stmt} (one : IsRead front stmts)
    (two : IsRead back others) : IsRead (front ++ Bytes.newline ++ back) (stmts ++ others) := by
  obtain ⟨sound, derived⟩ := isRead_iff.mp (isRead_newline.mpr one)
  obtain ⟨soundMore, derivedMore⟩ := isRead_iff.mp two
  rw [Lexer.decode_ended] at sound derived
  rcases Lexer.pieces_newline (Glyph.decode front) (Glyph.decode back) with ⟨piece, member, opens⟩ | parts
  · have closed := List.all_eq_true.mp sound piece member
    cases found : piece.finding <;> rw [found] at opens closed <;> cases opens <;> cases closed
  · rw [isRead_iff, Lexer.decode_joined, parts, List.all_append, sound, soundMore, List.filterMap_append]
    exact ⟨rfl, derived.append derivedMore⟩

end Treewalk.Program

namespace Treewalk

def Bytes.ofLines (lines : List Bytes) : Bytes :=
  joinWith newline lines

theorem Bytes.ofLines_append {first second : List Bytes} (some : first ≠ []) (more : second ≠ []) :
    ofLines (first ++ second) = ofLines first ++ newline ++ ofLines second := by
  unfold ofLines
  induction first with
  | nil => exact absurd rfl some
  | cons line rest ih =>
    cases rest with
    | nil =>
      cases second with
      | nil => exact absurd rfl more
      | cons next second => rfl
    | cons next rest =>
      have inside := ih (List.cons_ne_nil next rest)
      simp only [List.cons_append, joinWith, List.append_assoc] at inside ⊢
      rw [inside]

def Program.plainStatements (source : Bytes) : List Stmt :=
  (ofSource source).statements.map (Stmt.relocate Position.forget)

/-- Valid texts, each of some lines, are read one after another when all their lines are joined. -/
theorem Program.isRead_lines {chunks : List (List Bytes)}
    (each : ∀ chunk ∈ chunks, chunk ≠ [] ∧ (ofSource (Bytes.ofLines chunk)).errors = []) :
    IsRead (Bytes.ofLines chunks.flatten) (chunks.flatMap fun chunk => plainStatements (Bytes.ofLines chunk)) := by
  induction chunks with
  | nil =>
    have empty : Lexer.pieces (Glyph.decode (Bytes.ofLines [])) = [] := by
      rw [show Glyph.decode (Bytes.ofLines []) = [] from rfl, Lexer.pieces]
    rw [List.flatten_nil, isRead_iff, empty]
    exact ⟨rfl, [], by simp, rfl, rfl⟩
  | cons chunk rest ih =>
    obtain ⟨some, valid⟩ := each chunk List.mem_cons_self
    have others := ih fun chunk member => each chunk (List.mem_cons_of_mem _ member)
    rw [List.flatten_cons, List.flatMap_cons]
    cases rest with
    | nil =>
      rw [List.flatten_nil, List.flatMap_nil, List.append_nil, List.append_nil]
      exact isRead_of_valid valid
    | cons next rest =>
      have more : (next :: rest).flatten ≠ [] := by
        rw [List.flatten_cons]
        exact List.append_ne_nil_of_left_ne_nil (each next (by simp)).1 _
      rw [Bytes.ofLines_append some more]
      exact (isRead_of_valid valid).append others

end Treewalk
