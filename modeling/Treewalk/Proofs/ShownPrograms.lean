import Treewalk.CommandLine.Outcome
import Treewalk.Proofs.LegibleTrees
import Treewalk.Proofs.SourceJoin
import Treewalk.Proofs.SourcePieces

/-! What is shown for a source tells its statements. Every token that is found in a source is spelled as
its kind demands, names never look like constants, and so the trees that are read from it are legible. -/

namespace Treewalk

/-- A token that spells no constant and is no name is genuine if it is spelled as its kind is. -/
theorem Token.genuine_of_spelled {token : Token} (other : token.kind ∉ [.identifier, .number, .string])
    (silent : token.value = .null) (spelled : token.kind ∉ variedKinds → token.lexeme = token.kind.bytes) : token.Genuine where
  constant := silent ▸ .leaf .null
  silent _ := silent
  named names := absurd (names ▸ List.mem_cons_self) other
  spelled := spelled

theorem Token.genuine_of_constant {token : Token} (constant : token.kind ∈ [.number, .string])
    (readable : Shape.Readable (.constant token.value)) : token.Genuine where
  constant := readable
  silent other := absurd constant other
  named names := by simp [names] at constant
  spelled fixed := by
    have varied : [TokenKind.number, .string] ⊆ variedKinds := by decide
    exact absurd (varied constant) fixed

namespace Lexer

/-- A byte below `0x80` that is no part of a word stands in no word. -/
private theorem utf8_without {property : Char → Bool} {c : Char} (holds : property c = true) {byte : UInt8}
    (small : byte.toNat < 0x80) (other : property (.ofNat byte.toNat) = false) : byte ∉ utf8 c := by
  intro inside
  rw [← utf8_ascii inside small, Char.ofNat_toNat, holds] at other
  cases other

private theorem word_solid {glyphs : List Glyph} (filled : glyphs ≠ [])
    (each : ∀ glyph ∈ glyphs, glyph.satisfies isWordPart = true) : Solid (Glyph.encode glyphs) where
  filled := List.ne_nil_of_length_pos (Glyph.length_encode_pos filled)
  bytes byte inside delimits := by
    have apart : ∀ byte ∈ delimiters, byte.toNat < 0x80 ∧ isWordPart (.ofNat byte.toNat) = false := by
      decide +kernel
    obtain ⟨glyph, member, inside⟩ := List.mem_flatMap.mp inside
    have holds := each glyph member
    cases glyph with
    | stray => cases holds
    | char c => exact utf8_without holds (apart byte delimits).1 (apart byte delimits).2 inside

private theorem word_worded {c : Char} (starts : isWordStart c = true) (rest : Bytes) : startsNumber (utf8 c ++ rest) = false := by
  have apart : ∀ n ∈ 0x2D :: List.range' 0x30 10, isWordStart (.ofNat n) = false := by decide
  cases same : utf8 c with
  | nil => exact absurd same (Glyph.bytes_ne_nil (.char c))
  | cons byte others =>
    have inside : byte ∈ utf8 c := same ▸ List.mem_cons_self
    have other : byte.toNat ∉ 0x2D :: List.range' 0x30 10 := by
      intro member
      have small : ∀ n ∈ 0x2D :: List.range' 0x30 10, n < 0x80 := by decide
      exact utf8_without starts (small _ member) (apart _ member) inside
    have minus : byte ≠ 0x2D := by
      rintro rfl
      exact other (by decide)
    have digit : 0x30 ≤ byte → ¬ byte ≤ 0x39 := by
      intro least most
      rw [UInt8.le_iff_toNat_le] at least most
      exact other (List.mem_cons_of_mem _ (List.mem_range'_1.mpr ⟨least, Nat.lt_succ_of_le most⟩))
    simpa [startsNumber, minus] using digit

private theorem word_genuine {c : Char} (starts : isWordStart c = true) (rest : List Glyph) {text : Bytes}
    (spells : text = Glyph.encode (.char c :: rest.take (runLength isWordPart rest))) (pos : Position) :
    Token.Genuine ⟨.ofWord text, text, .null, pos⟩ := by
  rcases TokenKind.ofWord_cases text with ⟨keyword, same⟩ | ⟨identifier, unlike⟩
  · have other : ∀ kind ∈ TokenKind.keywords, kind ∉ [.identifier, .number, .string] := by decide
    exact Token.genuine_of_spelled (other _ keyword) rfl fun _ => same.symm
  · have parts : ∀ glyph ∈ Glyph.char c :: rest.take (runLength isWordPart rest), glyph.satisfies isWordPart = true :=
      List.forall_mem_cons.mpr ⟨Bool.or_eq_true_iff.mpr (.inl starts), runLength_satisfies isWordPart rest⟩
    have solid : Solid text := spells ▸ word_solid (List.cons_ne_nil _ _) parts
    have worded : startsNumber text = false := by
      rw [spells, Glyph.encode_cons]
      exact word_worded starts _
    have free : text ∉ constantWords := by
      have words : ∀ word ∈ constantWords, ∃ kind ∈ TokenKind.keywords, kind.bytes = word := by decide +kernel
      intro member
      obtain ⟨kind, keyword, same⟩ := words text member
      exact unlike kind keyword same
    refine ⟨.leaf .null, fun _ => rfl, fun _ => ⟨solid, worded, free⟩, fun fixed => ?_⟩
    exact absurd (identifier ▸ List.mem_cons_self) fixed

private theorem doubleMark_spelled {c d : Char} {kind : TokenKind} (found : doubleMark c d = some kind) :
    kind ∉ [.identifier, .number, .string] ∧ (kind ∉ variedKinds → utf8 c ++ utf8 d = kind.bytes) := by
  unfold doubleMark at found
  split at found <;> cases found <;> decide

private theorem singleMark_spelled {c : Char} {kind : TokenKind} (found : singleMark c = some kind) :
    kind ∉ [.identifier, .number, .string] ∧ utf8 c = kind.bytes := by
  unfold singleMark at found
  split at found <;> cases found <;> decide

private theorem mark_genuine {c : Char} {rest : List Glyph} {kind : TokenKind} {value : Literal}
    (finds : (mark c rest).1 = .token kind value) (pos : Position) :
    Token.Genuine ⟨kind, Glyph.encode (.char c :: rest.take (mark c rest).2), value, pos⟩ := by
  unfold mark at finds ⊢
  dsimp only at finds ⊢
  split at finds
  next double _ found =>
    cases finds
    split at found
    next d rest =>
      obtain ⟨other, spelled⟩ := doubleMark_spelled found
      refine Token.genuine_of_spelled other rfl fun fixed => ?_
      simpa [Glyph.encode, Glyph.bytes] using spelled fixed
    next => cases found
  next none found =>
    cases finds
    obtain ⟨other, spelled⟩ := singleMark_spelled found
    refine Token.genuine_of_spelled other rfl fun _ => ?_
    simpa [Glyph.encode, Glyph.bytes] using spelled
  next => cases finds

private theorem numberFinding_genuine {whole fraction : List Glyph} {kind : TokenKind} {value : Literal}
    (finds : numberFinding whole fraction = .token kind value) (lexeme : Bytes) (pos : Position) :
    Token.Genuine ⟨kind, lexeme, value, pos⟩ := by
  unfold numberFinding at finds
  dsimp only at finds
  split at finds <;> cases finds
  next negative magnitude reads =>
    exact Token.genuine_of_constant (by simp) (.leaf (.number ⟨negative, magnitude, reads⟩))

private theorem quoted_genuine {rest : List Glyph} {kind : TokenKind} {value : Literal}
    (finds : (quoted rest).1 = .token kind value) (lexeme : Bytes) (pos : Position) :
    Token.Genuine ⟨kind, lexeme, value, pos⟩ := by
  unfold quoted at finds
  split at finds
  · cases finds
  · split at finds <;> cases finds
    exact Token.genuine_of_constant (by simp) (.quoted _)

private theorem classify_genuine {glyph : Glyph} {rest : List Glyph} {kind : TokenKind} {value : Literal}
    (finds : (classify glyph rest).1 = .token kind value) (pos : Position) :
    Token.Genuine ⟨kind, Glyph.encode (glyph :: rest.take (classify glyph rest).2), value, pos⟩ := by
  cases glyph with
  | stray byte => cases finds
  | char c =>
    -- A comment gives no token.
    have plain : ¬ (c = '/' ∧ (rest.head? = some (.char '/') ∨ rest.head? = some (.char '*'))) := by
      rintro ⟨rfl, line | block⟩
      · obtain ⟨rest, rfl⟩ := List.head?_eq_some_iff.mp line
        cases finds
      · obtain ⟨rest, rfl⟩ := List.head?_eq_some_iff.mp block
        rw [classify] at finds
        split at finds <;> cases finds
    rw [classify_plain plain] at finds ⊢
    by_cases blank : Text.isBlank c = true
    · rw [if_pos blank] at finds
      cases finds
    rw [if_neg blank] at finds ⊢
    by_cases starts : isWordStart c = true
    · rw [if_pos starts] at finds ⊢
      cases finds
      exact word_genuine starts rest rfl pos
    rw [if_neg starts] at finds ⊢
    by_cases digit : isDigit c = true
    · rw [if_pos digit, number_eq] at finds
      split at finds <;> exact numberFinding_genuine finds _ pos
    rw [if_neg digit] at finds ⊢
    by_cases quote : (c == '"') = true
    · rw [if_pos quote] at finds
      exact quoted_genuine finds _ pos
    rw [if_neg quote] at finds ⊢
    exact mark_genuine finds pos

theorem pieces_genuine {glyphs : List Glyph} {piece : Piece} (member : piece ∈ pieces glyphs) {token : Token}
    (found : piece.token? = some token) : token.Genuine := by
  fun_induction pieces glyphs with
  | case1 => cases member
  | case2 glyph rest finding length same ih =>
    rcases List.mem_cons.mp member with rfl | later
    · unfold Piece.token? at found
      split at found
      next kind value finds =>
        cases found
        have genuine := classify_genuine ((congrArg Prod.fst same).trans finds) {}
        rw [same] at genuine
        exact genuine
      next => cases found
    · exact ih later

end Lexer

/-- The statements of a valid source are legible. -/
theorem Program.ofSource_legible {source : Bytes} (valid : (ofSource source).errors = []) :
    ∀ stmt ∈ (ofSource source).statements, stmt.Legible := by
  obtain ⟨tokens, stop, same, inner, forgotten, _⟩ := Scan.ofPieces_anywhere .start (Lexer.pieces (Glyph.decode source))
    fun piece member => Lexer.pieces_kind member
  have genuine : ∀ token ∈ tokens, token.Genuine := by
    intro token member
    have moved : token.relocate Position.forget ∈ (Lexer.pieces (Glyph.decode source)).filterMap Piece.token? :=
      forgotten ▸ List.mem_map_of_mem member
    obtain ⟨piece, inside, found⟩ := List.mem_filterMap.mp moved
    obtain ⟨constant, silent, named, spelled⟩ := Lexer.pieces_genuine inside found
    exact ⟨constant, silent, named, spelled⟩
  have read : (ofSource source).statements = (ofTokens (tokens ++ [.endAt stop])).statements := by
    rw [← same]
    rfl
  have clean : (ofTokens (tokens ++ [.endAt stop])).errors = [] := by
    rw [← same]
    exact (List.append_eq_nil_iff.mp valid).2
  rw [read]
  exact ((ofTokens_derives rfl inner _).mpr ⟨clean, rfl⟩).legible genuine

namespace CommandLine

/-- The output for a valid source is made of the shapes of its statements. -/
private theorem showStatements_output {source : Bytes} (valid : (Program.ofSource source).errors = []) (session : Session) :
    (showStatements session source).output = Shape.ofLines ((Program.ofSource source).statements.map Stmt.shape) := by
  unfold showStatements
  dsimp only
  rw [if_pos (List.isEmpty_iff.mpr valid), Shape.ofLines, List.flatMap_map]
  simp only [Stmt.text_shape]

/-- The trees that are shown take one line each, and two valid sources are shown alike exactly if their statements
differ in nothing but places and the spelling of logical operators. -/
theorem showStatements_determines (session other : Session) (one two : Bytes) (valid : (Program.ofSource one).errors = [])
    (clean : (Program.ofSource two).errors = []) :
    Bytes.lines (showStatements session one).output =
        (Program.ofSource one).statements.map (fun stmt => stmt.text ++ Bytes.newline) ∧
      ((showStatements session one).output = (showStatements other two).output ↔
        (Program.ofSource one).statements.map (fun stmt => (stmt.relocate Position.forget).respelled) =
          (Program.ofSource two).statements.map fun stmt => (stmt.relocate Position.forget).respelled) := by
  have readable {source : Bytes} (valid : (Program.ofSource source).errors = []) :
      ∀ shape ∈ (Program.ofSource source).statements.map Stmt.shape, shape.Readable := by
    simpa using fun stmt member => (Program.ofSource_legible valid stmt member).readable
  have reads {source : Bytes} (valid : (Program.ofSource source).errors = []) :
      ((Program.ofSource source).statements.map Stmt.shape).map Shape.toStmt =
        (Program.ofSource source).statements.map fun stmt => (stmt.relocate Position.forget).respelled := by
    rw [List.map_map]
    exact List.map_congr_left fun stmt member => (Program.ofSource_legible valid stmt member).reads
  have shapes (stmts : List Stmt) :
      (stmts.map fun stmt => (stmt.relocate Position.forget).respelled).map Stmt.shape = stmts.map Stmt.shape := by
    rw [List.map_map]
    exact List.map_congr_left fun stmt _ => stmt.shape_plain Position.forget
  rw [showStatements_output valid, showStatements_output clean]
  refine ⟨?_, ?_, ?_⟩
  · rw [Shape.lines_ofLines (readable valid), List.map_map]
    exact List.map_congr_left fun stmt _ => congrArg (· ++ Bytes.newline) stmt.text_shape
  · intro same
    rw [← reads valid, ← reads clean, Shape.ofLines_injective (readable valid) (readable clean) same]
  · intro same
    rw [← shapes (Program.ofSource one).statements, same, shapes]

/-- A call with `&&` and one with `and` are shown alike, on one line. -/
theorem spelledConjunction_determined :
    let one := Bytes.ofString "f(\"(x)\", a && -1);"
    let two := Bytes.ofString "f(\"(x)\",\n  a and -1);"
    let shown := Bytes.ofString "(; (call f \"(x)\" (and a (- 1))))\n"
    (showStatements (.start {}) one).output = shown ∧ (showStatements (.start {}) two).output = shown ∧
      Bytes.lines shown = (Program.ofSource one).statements.map (fun stmt => stmt.text ++ Bytes.newline) ∧
      (Program.ofSource one).statements.map (fun stmt => (stmt.relocate Position.forget).respelled) =
        (Program.ofSource two).statements.map fun stmt => (stmt.relocate Position.forget).respelled := by
  intro one two shown
  have valid : (Program.ofSource one).errors = [] := by decide +kernel
  have clean : (Program.ofSource two).errors = [] := by decide +kernel
  have first : (showStatements (.start {}) one).output = shown := by decide +kernel
  have second : (showStatements (.start {}) two).output = shown := by decide +kernel
  have determined := showStatements_determines (.start {}) (.start {}) one two valid clean
  rw [first, second] at determined
  exact ⟨first, second, determined.1, determined.2.mp rfl⟩

end CommandLine
end Treewalk
