import Treewalk.Proofs.SourceJoin
import Treewalk.Proofs.TokenTexts

/-! Tokens written out again. The texts of the tokens of a source, with single spaces between them, are a source
with the same tokens, also where the first source had errors. -/

namespace Treewalk

namespace Lexer

/-- The text of a token is made of characters. -/
theorem TokenText.plain {text : List Glyph} {kind : TokenKind} {value : Literal} (form : TokenText text kind value) :
    ∀ byte, .stray byte ∉ text := by
  have apart : ∀ {property : Char → Bool} {glyphs : List Glyph},
      (∀ glyph ∈ glyphs, glyph.satisfies property = true) → ∀ byte, .stray byte ∉ glyphs :=
    fun satisfied byte inside => nomatch satisfied _ inside
  intro byte
  cases form with
  | word _ goesOn => simpa using apart goesOn byte
  | whole _ goesOn => simpa using apart goesOn byte
  | fraction _ goesOn further => simpa using ⟨apart goesOn byte, apart further byte⟩
  | string _ plain => simpa using plain byte
  | single | double => simp

end Lexer

def Token.WellSpelled (token : Token) : Prop :=
  ∃ letters : List Char, token.lexeme = letters.flatMap utf8 ∧ Lexer.TokenText (letters.map .char) token.kind token.value

namespace Lexer

theorem pieces_wellSpelled (glyphs : List Glyph) : ∀ token ∈ (pieces glyphs).filterMap Piece.token?, token.WellSpelled := by
  fun_induction pieces glyphs with
  | case1 => simp
  | case2 glyph rest finding length same ih =>
    intro token member
    obtain ⟨piece, found, gives⟩ := List.mem_filterMap.mp member
    rcases List.mem_cons.mp found with rfl | later
    · have finds : (classify glyph rest).1 = finding := by rw [same]
      have taken : (classify glyph rest).2 = length := by rw [same]
      unfold Piece.token? at gives
      split at gives
      next kind value token =>
        cases gives
        have form := classify_token (finds.trans token)
        rw [taken] at form
        obtain ⟨letters, spelled⟩ := Glyph.letters_of_plain form.plain
        rw [spelled] at form ⊢
        exact ⟨letters, Glyph.encode_letters letters, form⟩
      next => cases gives
    · exact ih token (List.mem_filterMap.mpr ⟨piece, later, gives⟩)

/-- A token that is parted from what stands behind it is a piece of its own. -/
theorem TokenText.pieces {text behind : List Glyph} {kind : TokenKind} {value : Literal} (form : TokenText text kind value)
    (parted : Parted behind) : Lexer.pieces (text ++ behind) = ⟨text, .token kind value⟩ :: Lexer.pieces behind := by
  obtain ⟨glyph, rest, rfl, stands⟩ := form.stands
  rw [List.cons_append, pieces_cons, stands behind parted, List.take_left, List.drop_left]

theorem pieces_space (behind : List Glyph) : pieces (.char ' ' :: behind) = ⟨[.char ' '], .blank⟩ :: pieces behind := by
  have blank : classify (.char ' ') behind = (.blank, 0) := by
    rw [classify_plain (by simp), if_pos (by decide)]
  rw [pieces_cons, blank]
  rfl

/-- Tokens with single spaces between them are read one after another. -/
theorem pieces_spaced {tokens : List Token} (each : ∀ token ∈ tokens, token.WellSpelled) :
    (pieces (Glyph.decode (Bytes.joinWith (utf8 ' ') (tokens.map Token.lexeme)))).all (·.finding.isSound) = true ∧
      (pieces (Glyph.decode (Bytes.joinWith (utf8 ' ') (tokens.map Token.lexeme)))).filterMap Piece.token? =
        tokens.map (Token.relocate Position.forget) := by
  induction tokens with
  | nil => simp [Bytes.joinWith, pieces]
  | cons token tokens ih =>
    obtain ⟨letters, spelled, form⟩ := each token List.mem_cons_self
    obtain ⟨sound, same⟩ := ih fun other member => each other (List.mem_cons_of_mem _ member)
    have first : (⟨letters.map .char, .token token.kind token.value⟩ : Piece).token? =
        some (token.relocate Position.forget) := by
      rw [Piece.token?, Glyph.encode_letters, ← spelled]
      rfl
    have heard : (⟨letters.map .char, .token token.kind token.value⟩ : Piece).finding.isSound = true := rfl
    -- A token before another one has a space behind it, which is a piece of its own; the last one has nothing.
    cases tokens with
    | nil =>
      have parted : Parted [] := by simp [Parted]
      have alone := form.pieces parted
      rw [List.append_nil] at alone
      rw [List.map_singleton, Bytes.joinWith, spelled, Glyph.decode_text, alone, List.all_cons,
        List.filterMap_cons_some first, heard]
      simp [pieces]
    | cons next tokens =>
      have parted : Parted (.char ' ' :: Glyph.decode (Bytes.joinWith (utf8 ' ') ((next :: tokens).map Token.lexeme))) := by
        rintro glyph ⟨⟩
        rfl
      rw [List.map_cons, List.map_cons, Bytes.joinWith, spelled, List.append_assoc, Glyph.decode_letters, Glyph.decode_utf8,
        ← List.map_cons, form.pieces parted, pieces_space, List.all_cons, List.filterMap_cons_some first, heard]
      · exact ⟨sound, congrArg _ same⟩
      · exact List.cons_ne_nil _ _

end Lexer

namespace Scan

def inner (scan : Scan) : List Token :=
  scan.tokens.filter (!·.isEnd)

/-- The texts of the tokens with single spaces between them. -/
def spaced (scan : Scan) : Bytes :=
  Bytes.joinWith (utf8 ' ') (scan.inner.map Token.lexeme)

end Scan

theorem scan_anywhere (source : Bytes) :
    (scan source).inner.map (Token.relocate Position.forget) =
      (Lexer.pieces (Glyph.decode source)).filterMap Piece.token? ∧
    ((scan source).errors = [] ↔ (Lexer.pieces (Glyph.decode source)).all (·.finding.isSound) = true) := by
  obtain ⟨tokens, stop, same, inner, forgotten, clean⟩ := Scan.ofPieces_anywhere .start
    (Lexer.pieces (Glyph.decode source)) fun piece member => Lexer.pieces_kind member
  have before : (scan source).inner = tokens := by
    have kept : tokens.filter (!·.isEnd) = tokens := by
      refine List.filter_eq_self.mpr fun token member => ?_
      rw [inner token member]
      rfl
    rw [Scan.inner, scan, same, List.filter_append, kept]
    exact List.append_nil tokens
  exact ⟨by rw [before, forgotten], clean⟩

theorem scan_wellSpelled (source : Bytes) : ∀ token ∈ (scan source).inner, token.WellSpelled := by
  intro token member
  have moved : token.relocate Position.forget ∈ (Lexer.pieces (Glyph.decode source)).filterMap Piece.token? := by
    rw [← (scan_anywhere source).1]
    exact List.mem_map_of_mem member
  have spelled := Lexer.pieces_wellSpelled _ _ moved
  exact spelled

/-- The tokens of a source can be written out, with single spaces between them, and read again. -/
theorem scan_spaced (source : Bytes) :
    (scan (scan source).spaced).errors = [] ∧
      (scan (scan source).spaced).inner.map (Token.relocate Position.forget) =
        (scan source).inner.map (Token.relocate Position.forget) := by
  obtain ⟨sound, same⟩ := Lexer.pieces_spaced (scan_wellSpelled source)
  obtain ⟨tokens, clean⟩ := scan_anywhere (scan source).spaced
  exact ⟨clean.mpr sound, tokens.trans same⟩

end Treewalk
