import Treewalk.Proofs.SourcePlaces
import Treewalk.Proofs.SpacedTokens

/-! What string literals spell. A literal is read as the text that its characters and escapes spell, and nothing else
is ever read as a string. A literal with a byte that belongs to no character is passed over with one error. -/

namespace Treewalk

/-- Characters between the quotes of a literal, and the text that they spell. -/
inductive Spelling : (written text : List Char) → Prop
  | nil : Spelling [] []
  | plain {c : Char} {written text : List Char} (unquoted : c ≠ '"') (unescaped : c ≠ '\\') (rest : Spelling written text) :
      Spelling (c :: written) (c :: text)
  | escaped {c : Char} {written text : List Char} (noNewline : c ≠ 'n') (noTab : c ≠ 't') (rest : Spelling written text) :
      Spelling ('\\' :: c :: written) (c :: text)
  | newline {written text : List Char} (rest : Spelling written text) : Spelling ('\\' :: 'n' :: written) ('\n' :: text)
  | tab {written text : List Char} (rest : Spelling written text) : Spelling ('\\' :: 't' :: written) ('\t' :: text)

namespace Spelling

variable {written text : List Char}

theorem enclosed (spelling : Spelling written text) : Lexer.Enclosed (written.map .char) text := by
  induction spelling with
  | nil => exact .nil
  | plain unquoted unescaped _ ih => exact .plain (by simpa using unquoted) (by simpa using unescaped) ih
  | @escaped c _ _ noNewline noTab _ ih =>
    have same : Lexer.unescape c = c := by
      unfold Lexer.unescape
      split
      next => exact absurd rfl noNewline
      next => exact absurd rfl noTab
      next => rfl
    have behind := Lexer.Enclosed.escaped (.char c) ih
    rw [Glyph.shown, same] at behind
    exact behind
  | newline _ ih => exact .escaped (.char 'n') ih
  | tab _ ih => exact .escaped (.char 't') ih

theorem of_escaped (c : Char) (rest : Spelling written text) :
    Spelling ('\\' :: c :: written) (Lexer.unescape c :: text) := by
  unfold Lexer.unescape
  split
  next => exact .newline rest
  next => exact .tab rest
  next noNewline noTab => exact .escaped noNewline noTab rest

theorem of_enclosed {body : List Glyph} (enclosed : Lexer.Enclosed body text) (letters : body = written.map .char) :
    Spelling written text := by
  induction enclosed generalizing written with
  | nil =>
    obtain rfl := List.map_eq_nil_iff.mp letters.symm
    exact .nil
  | plain unquoted unescaped _ ih =>
    obtain ⟨c, written, rfl, rfl, rfl⟩ := List.map_eq_cons_iff.mp letters.symm
    exact .plain (fun same => unquoted (congrArg _ same)) (fun same => unescaped (congrArg _ same)) (ih rfl)
  | escaped glyph _ ih =>
    obtain ⟨_, others, rfl, slash, rest⟩ := List.map_eq_cons_iff.mp letters.symm
    obtain ⟨c, written, rfl, rfl, rfl⟩ := List.map_eq_cons_iff.mp rest
    obtain rfl := Glyph.char.inj slash
    exact of_escaped c (ih rfl)

end Spelling

namespace Bytes

/-- What is written spells the value. Both are text. -/
def Spells (written value : Bytes) : Prop :=
  ∃ letters text, Spelling letters text ∧ written = letters.flatMap utf8 ∧ value = text.flatMap utf8

def inQuotes (written : Bytes) : Bytes :=
  utf8 '"' ++ written ++ utf8 '"'

theorem decode_inQuotes (written rest : Bytes) :
    Glyph.decode (inQuotes written ++ rest) = Glyph.decode (inQuotes written) ++ Glyph.decode rest ∧
      Glyph.decode (inQuotes written) = .char '"' :: (Glyph.decode written ++ [.char '"']) := by
  have whole : ∀ behind, Glyph.decode (inQuotes written ++ behind) =
      .char '"' :: (Glyph.decode written ++ .char '"' :: Glyph.decode behind) := by
    intro behind
    rw [inQuotes, List.append_assoc, List.append_assoc, Glyph.decode_utf8, ← List.append_assoc,
      Glyph.decode_parted _ '"' (by decide)]
  have alone := whole []
  rw [List.append_nil, Glyph.decode_nil] at alone
  refine ⟨?_, alone⟩
  rw [whole, alone, List.cons_append, List.append_assoc, List.singleton_append]

end Bytes

namespace Lexer

/-- A literal is a piece of its own. -/
theorem pieces_inQuotes {written : Bytes} {text : List Char} (enclosed : Enclosed (Glyph.decode written) text)
    (rest : Bytes) : pieces (Glyph.decode (written.inQuotes ++ rest)) =
      ⟨Glyph.decode written.inQuotes, (quoted (Glyph.decode written ++ .char '"' :: Glyph.decode rest)).1⟩ ::
        pieces (Glyph.decode rest) := by
  obtain ⟨whole, alone⟩ := written.decode_inQuotes rest
  have length : (Glyph.decode written).length + 1 = (Glyph.decode written ++ [Glyph.char '"']).length := by simp
  rw [whole, alone, List.cons_append, pieces_cons, classify_quote, ← List.append_cons, quoted_length enclosed,
    List.append_cons, length, List.take_left, List.drop_left]

/-- Only what stands in quotes is a string. -/
theorem TokenText.string_enclosed {text : List Glyph} {kind : TokenKind} {value : Literal} (form : TokenText text kind value)
    (string : kind = .string) : ∃ body shown, text = .char '"' :: (body ++ [.char '"']) ∧ Enclosed body shown ∧
      (∀ byte, .stray byte ∉ body) ∧ value = .string (shown.flatMap utf8) := by
  cases form with
  | word => exact absurd string (TokenKind.ofWord_ne _ (by decide))
  | whole _ _ finite | fraction _ _ _ _ finite => exact nomatch (numberFinding_kind finite).symm.trans string
  | string enclosed plain => exact ⟨_, _, rfl, enclosed, plain, rfl⟩
  | single found => exact absurd (singleMark_kind found) (by rw [string]; decide)
  | double found => exact absurd (doubleMark_kind found) (by rw [string]; decide)

theorem pieces_glyphs (glyphs : List Glyph) : (pieces glyphs).flatMap Piece.glyphs = glyphs := by
  fun_induction pieces glyphs with
  | case1 => rfl
  | case2 glyph rest finding length same ih => rw [List.flatMap_cons, ih, List.cons_append, List.take_append_drop]

end Lexer

/-- A literal is read as the text that it spells. -/
theorem scan_spelling {written value : Bytes} (spells : written.Spells value) (rest : Bytes) :
    (scan (written.inQuotes ++ rest)).tokens.head? =
      some { kind := .string, lexeme := written.inQuotes, value := .string value, pos := .start } := by
  obtain ⟨letters, text, spelling, rfl, rfl⟩ := spells
  have enclosed := spelling.enclosed
  have plain : ∀ byte, Glyph.stray byte ∉ letters.map .char := by simp
  rw [← Glyph.decode_text] at enclosed plain
  rw [scan, Lexer.pieces_inQuotes enclosed, Lexer.quoted_plain enclosed _ plain, Scan.ofPieces]
  dsimp only [Scan.add, Scan.addToken]
  rw [List.head?_cons, Glyph.encode_decode]

/-- The token is a literal that spells its value. -/
def Token.SpellsValue (token : Token) : Prop :=
  ∃ written value : Bytes, token.lexeme = written.inQuotes ∧ token.value = .string value ∧ value.isText = true ∧
    written.Spells value

/-- Every string of a source spells its value. -/
theorem scan_string {source : Bytes} {token : Token} (member : token ∈ (scan source).tokens)
    (string : token.kind = .string) : token.SpellsValue := by
  have inner : token ∈ (scan source).inner := List.mem_filter.mpr ⟨member, by simp [Token.isEnd, string]⟩
  obtain ⟨letters, spelled, form⟩ := scan_wellSpelled source token inner
  obtain ⟨body, shown, parts, enclosed, plain, value⟩ := form.string_enclosed string
  obtain ⟨written, rfl⟩ := Glyph.letters_of_plain plain
  refine ⟨written.flatMap utf8, shown.flatMap utf8, ?_, value, Bytes.isText_iff.mpr ⟨shown, rfl⟩, written, shown,
    .of_enclosed enclosed rfl, rfl, rfl⟩
  rw [spelled, ← Glyph.encode_letters, parts, ← Glyph.decode_text, ← (Bytes.decode_inQuotes _ []).2, Glyph.encode_decode]

/-- The scan of a source has come behind the pieces to a place where the rest stands before it. -/
def Lexer.ComesTo (source : Bytes) (before : List Piece) (rest : Bytes) : Prop :=
  pieces (Glyph.decode source) = before ++ pieces (Glyph.decode rest)

theorem Scan.ofPieces_end (start : Position) (pieces : List Piece) :
    (ofPieces start pieces).tokens.getLast? = some (.endAt (start.afterAll (pieces.flatMap Piece.glyphs))) := by
  induction pieces generalizing start with
  | nil => rfl
  | cons piece pieces ih =>
    obtain ⟨glyphs, finding⟩ := piece
    have last := ih (start.afterAll glyphs)
    rw [List.flatMap_cons, Position.afterAll_append]
    cases finding with
    | token => exact List.getLast?_cons.trans (by rw [last]; rfl)
    | _ => exact last

theorem Lexer.ComesTo.goesOn {source : Bytes} {before : List Piece} {rest : Bytes} (comes : ComesTo source before rest) :
    ∃ front tokens errors, ∃ start : Position, source = front ++ rest ∧ start.offset = front.length ∧
      Scan.ofPieces .start before = ⟨tokens ++ [.endAt start], errors⟩ ∧
      scan source = ⟨tokens ++ (Scan.ofPieces start (pieces (Glyph.decode rest))).tokens,
        errors ++ (Scan.ofPieces start (pieces (Glyph.decode rest))).errors⟩ := by
  have parts := pieces_glyphs (Glyph.decode source)
  rw [comes, List.flatMap_append, pieces_glyphs] at parts
  obtain ⟨tokens, errors, stop, _, _, goesOn⟩ := Scan.ofPieces_append .start before fun piece member =>
    pieces_kind (comes ▸ List.mem_append_left _ member)
  -- The pieces before have a scan of their own, and its end stands at the opening quote.
  have alone := goesOn []
  have last := Scan.ofPieces_end .start before
  rw [List.append_nil] at alone
  rw [alone] at last
  have place : stop = Position.start.afterAll (before.flatMap Piece.glyphs) := by
    have same : some (Token.endAt stop) = some (.endAt _) := List.getLast?_concat.symm.trans last
    exact congrArg Token.pos (Option.some.inj same)
  refine ⟨Glyph.encode (before.flatMap Piece.glyphs), tokens, errors, stop, ?_, ?_, ?_, ?_⟩
  · rw [← Glyph.encode_decode source, ← parts, Glyph.encode_append, Glyph.encode_decode]
  · rw [place, Position.afterAll_offset]
    exact Nat.zero_add _
  · rw [alone]
    simp [Scan.ofPieces]
  · rw [scan, comes, goesOn]

/-- The scan of the source passes over a literal behind the pieces: at its opening quote there is one error, which
names its first stray byte, there is no token, and the scan goes on behind its closing quote. -/
def Lexer.PassesOver (source : Bytes) (before : List Piece) (written rest : Bytes) : Prop :=
  ∃ front tokens errors, ∃ start : Position, ∃ distance,
    source = front ++ (written.inQuotes ++ rest) ∧ start.offset = front.length ∧
    Scan.ofPieces .start before = ⟨tokens ++ [.endAt start], errors⟩ ∧
    Glyph.FirstStray (Glyph.decode written) distance ∧
    let behind := Scan.ofPieces (start.afterAll (Glyph.decode written.inQuotes)) (pieces (Glyph.decode rest))
    let error : Diagnostic :=
      { token := .illegalAt start, defect := .invalidByte (start.offset + (distance + 1)), lexical := true,
        incomplete := false }
    scan source = ⟨tokens ++ behind.tokens, errors ++ error :: behind.errors⟩

/-- A literal with a stray byte is passed over. -/
theorem Lexer.ComesTo.passesOver {source : Bytes} {before : List Piece} {written rest : Bytes} {text : List Char}
    (comes : ComesTo source before (written.inQuotes ++ rest)) (closed : Enclosed (Glyph.decode written) text)
    (invalid : written.isText = false) : PassesOver source before written rest := by
  obtain ⟨front, tokens, errors, start, parts, offset, alone, goesOn⟩ := comes.goesOn
  have stray : ¬ ∀ byte, .stray byte ∉ Glyph.decode written := by
    intro plain
    rw [Bytes.isText_plain.mpr plain] at invalid
    cases invalid
  obtain ⟨byte, inside⟩ := Classical.not_forall.mp stray
  obtain ⟨distance, first, reads⟩ := quoted_stray closed (Glyph.decode rest) (Classical.not_not.mp inside)
  refine ⟨front, tokens, errors, start, distance, parts, offset, alone, first, ?_⟩
  rw [goesOn, pieces_inQuotes closed, reads]
  rfl

/-- Literals are read as what they spell, strings spell their values, and closed literals that are no text are
passed over wherever they stand. -/
theorem literals_spell_values :
    (∀ written value rest : Bytes, written.Spells value → (scan (written.inQuotes ++ rest)).tokens.head? =
      some { kind := .string, lexeme := written.inQuotes, value := .string value, pos := .start }) ∧
    (∀ source, ∀ token ∈ (scan source).tokens, token.kind = .string → token.SpellsValue) ∧
    ∀ source before written rest text, Lexer.ComesTo source before (written.inQuotes ++ rest) →
      Lexer.Enclosed (Glyph.decode written) text → written.isText = false →
      Lexer.PassesOver source before written rest := by
  refine ⟨?_, ?_, ?_⟩
  · intro written value rest spells
    exact scan_spelling spells rest
  · intro source token member string
    exact scan_string member string
  · intro source before written rest text comes closed invalid
    exact comes.passesOver closed invalid

/-- An escaped quote, a newline and a backslash in front of another character; and behind a name, a stray byte
behind a backslash. -/
theorem escapedQuote_spelled :
    let literal := Bytes.ofString "\"a\\\"\\n\\q\""
    let token : Token := { kind := .string, lexeme := literal, value := .string (.ofString "a\"\nq"), pos := .start }
    (scan (literal ++ .ofString " + 1")).tokens.head? = some token ∧ token.SpellsValue ∧
      Lexer.PassesOver (utf8 'x' ++ (Bytes.inQuotes [0x5C, 0xFF] ++ utf8 'y')) [⟨[.char 'x'], .token .identifier .null⟩]
        [0x5C, 0xFF] (utf8 'y') := by
  intro literal token
  obtain ⟨reads, strings, passes⟩ := literals_spell_values
  have spelling : Spelling "a\\\"\\n\\q".toList "a\"\nq".toList :=
    .plain (by decide) (by decide) (.escaped (by decide) (by decide) (.newline (.escaped (by decide) (by decide) .nil)))
  have head := reads (.ofString "a\\\"\\n\\q") _ (.ofString " + 1") ⟨_, _, spelling, rfl, rfl⟩
  have closed : Lexer.Enclosed (Glyph.decode [0x5C, 0xFF]) [Glyph.shown (.stray 0xFF)] := .escaped (.stray 0xFF) .nil
  refine ⟨head, strings _ _ (List.mem_of_head? head) rfl, passes _ _ _ _ _ ?_ closed (by decide)⟩
  unfold Lexer.ComesTo
  decide +kernel

end Treewalk
