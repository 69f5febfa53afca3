import Treewalk.Proofs.SourcePieces

/-! The texts of tokens. Words, numbers, strings and marks each have a form of their own. What a scan takes for a
token has one of these forms, and a text of such a form is taken for the token when a space or nothing stands
behind it. -/

namespace Treewalk

theorem Text.inRanges_bounds {n : Nat} {ranges : List (Nat × Nat)} (inside : inRanges n ranges = true) :
    ∃ range ∈ ranges, range.1 ≤ n ∧ n ≤ range.2 := by
  induction ranges with
  | nil => cases inside
  | cons range rest ih =>
    simp only [inRanges, Bool.and_eq_true, Bool.or_eq_true, decide_eq_true_eq] at inside
    obtain ⟨least, here | later⟩ := inside
    · exact ⟨range, List.mem_cons_self, least, here⟩
    · obtain ⟨other, member, bounds⟩ := ih later
      exact ⟨other, List.mem_cons_of_mem _ member, bounds⟩

namespace Lexer

/-- No white space starts a word. -/
theorem wordStart_visible {c : Char} (starts : isWordStart c = true) : Text.isBlank c = false := by
  have apart : ∀ range ∈ Text.blankRanges, ∀ n ∈ List.range' range.1 (range.2 + 1 - range.1),
      isWordStart (.ofNat n) = false := by
    decide +kernel
  refine Bool.eq_false_iff.mpr fun blank => ?_
  obtain ⟨range, member, least, greatest⟩ := Text.inRanges_bounds blank
  have none := apart range member c.toNat (List.mem_range'_1.mpr ⟨least, by omega⟩)
  rw [Char.ofNat_toNat, starts] at none
  cases none

/-- No digit is white space or starts a word. -/
theorem digit_apart {c : Char} (digit : isDigit c = true) : Text.isBlank c = false ∧ isWordStart c = false := by
  have apart : ∀ n ∈ List.range' 0x30 10, Text.isBlank (.ofNat n) = false ∧ isWordStart (.ofNat n) = false := by
    decide
  have bounds : '0' ≤ c ∧ c ≤ '9' := by simpa [isDigit] using digit
  have least : 0x30 ≤ c.toNat := bounds.1
  have greatest : c.toNat ≤ 0x39 := bounds.2
  have found := apart c.toNat (List.mem_range'_1.mpr ⟨least, by omega⟩)
  rwa [Char.ofNat_toNat] at found

def startsMark (c : Char) : Bool :=
  !Text.isBlank c && !isWordStart c && !isDigit c && c != '"'

theorem singleMark_starts {c : Char} {kind : TokenKind} (found : singleMark c = some kind) : startsMark c = true := by
  unfold singleMark at found
  split at found <;> first | decide | cases found

theorem doubleMark_starts {c d : Char} {kind : TokenKind} (found : doubleMark c d = some kind) :
    startsMark c = true ∧ ¬ (d = '/' ∨ d = '*') := by
  unfold doubleMark at found
  split at found <;> first | decide | cases found

theorem classify_digit {c : Char} (digit : isDigit c = true) (rest : List Glyph) :
    classify (.char c) rest = number (.char c) rest := by
  have plain : c ≠ '/' := by
    rintro rfl
    exact absurd digit (by decide)
  obtain ⟨visible, unworded⟩ := digit_apart digit
  rw [classify_plain (fun slash => plain slash.1), visible, unworded, digit]
  rfl

theorem classify_quote (rest : List Glyph) : classify (.char '"') rest = quoted rest := by
  rw [classify_plain (by simp)]
  rfl

theorem classify_mark {c : Char} {rest : List Glyph} (starts : startsMark c = true)
    (plain : ¬ (c = '/' ∧ (rest.head? = some (.char '/') ∨ rest.head? = some (.char '*')))) :
    classify (.char c) rest = mark c rest := by
  simp only [startsMark, Bool.and_eq_true, Bool.not_eq_true', bne_iff_ne] at starts
  obtain ⟨⟨⟨visible, unworded⟩, undigited⟩, unquoted⟩ := starts
  rw [classify_plain plain, visible, unworded, undigited]
  simp [unquoted]

/-- Glyphs between the quotes of a string, and the characters that they show. Any glyph may stand behind a
backslash. -/
inductive Enclosed : (body : List Glyph) → (text : List Char) → Prop
  | nil : Enclosed [] []
  | plain {glyph : Glyph} {body : List Glyph} {text : List Char} (unquoted : glyph ≠ .char '"')
      (unescaped : glyph ≠ .char '\\') (rest : Enclosed body text) : Enclosed (glyph :: body) (glyph.shown :: text)
  | escaped (glyph : Glyph) {body : List Glyph} {text : List Char} (rest : Enclosed body text) :
      Enclosed (.char '\\' :: glyph :: body) (unescape glyph.shown :: text)

theorem push_plain (inner : Quotation) {skipped : List Glyph} (glyph : Glyph) (c : Char) :
    (inner.push skipped glyph c).badByte = none ↔ inner.badByte = none ∧ ∀ byte, .stray byte ≠ glyph := by
  cases glyph <;> simp [Quotation.push]

/-- A string ends at the quote behind what it encloses. -/
theorem quotation?_enclosed {body : List Glyph} {text : List Char} (enclosed : Enclosed body text) (behind : List Glyph) :
    ∃ found, quotation? (body ++ .char '"' :: behind) = some found ∧ found.length = body.length + 1 ∧ found.text = text ∧
      (found.badByte = none ↔ ∀ byte, .stray byte ∉ body) := by
  induction enclosed with
  | nil => exact ⟨⟨1, [], none⟩, by simp [quotation?], rfl, rfl, by simp⟩
  | @plain glyph body text unquoted unescaped _ ih =>
    obtain ⟨inner, reads, length, shows, bad⟩ := ih
    refine ⟨inner.push [] glyph glyph.shown, ?_, ?_, ?_, ?_⟩
    · rw [List.cons_append, quotation?_plain unquoted unescaped, reads, Option.map_some]
    · simp [Quotation.push, length]
    · simp [Quotation.push, shows]
    · rw [push_plain, bad]
      grind
  | @escaped glyph body text _ ih =>
    obtain ⟨inner, reads, length, shows, bad⟩ := ih
    refine ⟨inner.push [.char '\\'] glyph (unescape glyph.shown), ?_, ?_, ?_, ?_⟩
    · simp only [List.cons_append, quotation?, reads, Option.map_some]
    · simp [Quotation.push, length]
    · simp [Quotation.push, shows]
    · rw [push_plain, bad]
      grind

theorem quotation?_encloses {glyphs : List Glyph} {found : Quotation} (closed : quotation? glyphs = some found) :
    ∃ body text behind, glyphs = body ++ .char '"' :: behind ∧ Enclosed body text := by
  induction glyphs using quotation?.induct generalizing found with
  | case1 => simp [quotation?] at closed
  | case2 rest => exact ⟨[], [], rest, rfl, .nil⟩
  | case3 glyph rest ih =>
    simp only [quotation?] at closed
    obtain ⟨inner, shorter, _⟩ := Option.map_eq_some_iff.mp closed
    obtain ⟨body, text, behind, rfl, enclosed⟩ := ih shorter
    exact ⟨.char '\\' :: glyph :: body, _, behind, rfl, .escaped glyph enclosed⟩
  | case4 glyph rest unquoted unescaped ih =>
    by_cases escape : glyph = .char '\\'
    · cases rest with
      | nil =>
        rw [escape] at closed
        simp [quotation?] at closed
      | cons next rest => exact absurd rfl (unescaped next rest escape)
    · rw [quotation?_plain unquoted escape] at closed
      obtain ⟨inner, shorter, _⟩ := Option.map_eq_some_iff.mp closed
      obtain ⟨body, text, behind, rfl, enclosed⟩ := ih shorter
      exact ⟨glyph :: body, _, behind, rfl, .plain unquoted escape enclosed⟩

section

variable {body : List Glyph} {text : List Char} (enclosed : Enclosed body text) (behind : List Glyph)
include enclosed

theorem quoted_length : (quoted (body ++ .char '"' :: behind)).2 = body.length + 1 := by
  obtain ⟨found, reads, length, _⟩ := quotation?_enclosed enclosed behind
  simp only [quoted, reads]
  split <;> exact length

theorem quoted_plain (plain : ∀ byte, .stray byte ∉ body) :
    quoted (body ++ .char '"' :: behind) = (.token .string (.string (text.flatMap utf8)), body.length + 1) := by
  obtain ⟨found, reads, length, shows, bad⟩ := quotation?_enclosed enclosed behind
  simp only [quoted, reads, bad.mpr plain, shows, length]

theorem quoted_stray {byte : UInt8} (stray : .stray byte ∈ body) : ∃ distance, Glyph.FirstStray body distance ∧
    quoted (body ++ .char '"' :: behind) = (.badByte (distance + 1), body.length + 1) := by
  obtain ⟨found, reads, length, shows, bad⟩ := quotation?_enclosed enclosed behind
  obtain ⟨other, taken, first⟩ := quotation?_text reads
  have whole : (body ++ [Glyph.char '"']).length = found.length := by simp [length]
  have same : body = other := by
    rw [List.append_cons, ← whole, List.take_left] at taken
    exact List.append_cancel_right taken
  cases here : found.badByte with
  | none => exact absurd stray (bad.mp here byte)
  | some distance =>
    refine ⟨distance, same ▸ first distance here, ?_⟩
    simp only [quoted, reads, here, length]

end

inductive TokenText : List Glyph → TokenKind → Literal → Prop
  | word {c : Char} {rest : List Glyph} (starts : isWordStart c = true)
      (goesOn : ∀ glyph ∈ rest, glyph.satisfies isWordPart = true) :
      TokenText (.char c :: rest) (.ofWord (Glyph.encode (.char c :: rest))) .null
  | whole {c : Char} {digits : List Glyph} {kind : TokenKind} {value : Literal} (starts : isDigit c = true)
      (goesOn : ∀ glyph ∈ digits, glyph.satisfies isDigit = true)
      (finite : numberFinding (.char c :: digits) [] = .token kind value) : TokenText (.char c :: digits) kind value
  | fraction {c : Char} {digits fraction : List Glyph} {kind : TokenKind} {value : Literal} (starts : isDigit c = true)
      (goesOn : ∀ glyph ∈ digits, glyph.satisfies isDigit = true)
      (further : ∀ glyph ∈ fraction, glyph.satisfies isDigit = true) (some : fraction ≠ [])
      (finite : numberFinding (.char c :: digits) fraction = .token kind value) :
      TokenText (.char c :: (digits ++ .char '.' :: fraction)) kind value
  | string {body : List Glyph} {text : List Char} (enclosed : Enclosed body text) (plain : ∀ byte, .stray byte ∉ body) :
      TokenText (.char '"' :: (body ++ [.char '"'])) .string (.string (text.flatMap utf8))
  | single {c : Char} {kind : TokenKind} (found : singleMark c = some kind) : TokenText [.char c] kind .null
  | double {c d : Char} {kind : TokenKind} (found : doubleMark c d = some kind) : TokenText [.char c, .char d] kind .null

theorem take_runLength (property : Char → Bool) (glyphs : List Glyph) :
    (glyphs.take (runLength property glyphs)).length = runLength property glyphs := by
  rw [List.length_take, Nat.min_eq_left (runLength_le glyphs property)]

/-- A number with or without digits behind a point. -/
theorem number_token {c : Char} {rest : List Glyph} {kind : TokenKind} {value : Literal} (digit : isDigit c = true)
    (finds : (number (.char c) rest).1 = .token kind value) :
    TokenText (.char c :: rest.take (number (.char c) rest).2) kind value := by
  have digits := runLength_satisfies isDigit rest
  rw [number_eq] at finds ⊢
  split at finds
  next none =>
    rw [if_pos none]
    exact .whole digit digits finds
  next some =>
    rw [if_neg some]
    dsimp only at finds ⊢
    -- The point stands behind the digits, and its own digits behind it.
    generalize left : rest.drop (runLength isDigit rest) = behind at some finds ⊢
    unfold fractionLength at some finds ⊢
    split at some
    next fraction =>
      have parts : rest = rest.take (runLength isDigit rest) ++ .char '.' :: fraction := by
        rw [← left, List.take_append_drop]
      have further : rest.drop (runLength isDigit rest + 1) = fraction := by
        rw [← List.drop_drop, left, List.drop_one, List.tail_cons]
      have taken : rest.take (runLength isDigit rest + 1 + runLength isDigit fraction) =
          rest.take (runLength isDigit rest) ++ .char '.' :: fraction.take (runLength isDigit fraction) := by
        rw [Nat.add_assoc, List.take_add, left, Nat.add_comm 1, List.take_succ_cons]
      rw [further] at finds
      rw [taken]
      refine .fraction digit digits (runLength_satisfies isDigit fraction) ?_ finds
      intro nothing
      rw [← take_runLength, nothing] at some
      exact some rfl
    next => exact absurd rfl some

theorem mark_token {c : Char} {rest : List Glyph} {kind : TokenKind} {value : Literal}
    (finds : (mark c rest).1 = .token kind value) : TokenText (.char c :: rest.take (mark c rest).2) kind value := by
  unfold mark at finds ⊢
  dsimp only at finds ⊢
  split at finds
  next found =>
    cases finds
    split at found
    next d rest => exact .double found
    next => cases found
  next found =>
    cases finds
    exact .single found
  next => cases finds

theorem quoted_token {rest : List Glyph} {kind : TokenKind} {value : Literal}
    (finds : (quoted rest).1 = .token kind value) : TokenText (.char '"' :: rest.take (quoted rest).2) kind value := by
  cases closed : quotation? rest with
  | none =>
    rw [quoted, closed] at finds
    cases finds
  | some found =>
    obtain ⟨body, text, behind, rfl, enclosed⟩ := quotation?_encloses closed
    by_cases plain : ∀ byte, .stray byte ∉ body
    · have whole : (body ++ [Glyph.char '"']).length = body.length + 1 := by simp
      rw [quoted_plain enclosed behind plain] at finds ⊢
      cases finds
      rw [List.append_cons, ← whole, List.take_left]
      exact .string enclosed plain
    · obtain ⟨byte, stray⟩ := Classical.not_forall.mp plain
      obtain ⟨distance, _, reads⟩ := quoted_stray enclosed behind (Classical.not_not.mp stray)
      rw [reads] at finds
      cases finds

/-- What is taken for a token has the form of one. -/
theorem classify_token {glyph : Glyph} {rest : List Glyph} {kind : TokenKind} {value : Literal}
    (finds : (classify glyph rest).1 = .token kind value) :
    TokenText (glyph :: rest.take (classify glyph rest).2) kind value := by
  cases glyph with
  | stray byte => cases finds
  | char c =>
    have plain : ¬ (c = '/' ∧ (rest.head? = some (.char '/') ∨ rest.head? = some (.char '*'))) := by
      rintro ⟨rfl, line | block⟩
      · obtain ⟨rest, rfl⟩ := List.head?_eq_some_iff.mp line
        cases finds
      · obtain ⟨rest, rfl⟩ := List.head?_eq_some_iff.mp block
        rw [classify] at finds
        split at finds <;> cases finds
    rw [classify_plain plain] at finds ⊢
    by_cases blank : Text.isBlank c = true
    · rw [if_pos blank] at finds
      cases finds
    rw [if_neg blank] at finds ⊢
    by_cases starts : isWordStart c = true
    · rw [if_pos starts] at finds ⊢
      cases finds
      exact .word starts (runLength_satisfies isWordPart rest)
    rw [if_neg starts] at finds ⊢
    by_cases digit : isDigit c = true
    · rw [if_pos digit] at finds ⊢
      exact number_token digit finds
    rw [if_neg digit] at finds ⊢
    by_cases quote : (c == '"') = true
    · obtain rfl := beq_iff_eq.mp quote
      rw [if_pos quote] at finds ⊢
      exact quoted_token finds
    rw [if_neg quote] at finds ⊢
    exact mark_token finds

def Parted (behind : List Glyph) : Prop :=
  ∀ glyph ∈ behind.head?, glyph = .char ' '

section

variable {behind : List Glyph}

theorem runLength_append {property : Char → Bool} {front : List Glyph}
    (inside : ∀ glyph ∈ front, glyph.satisfies property = true)
    (stops : ∀ glyph ∈ behind.head?, glyph.satisfies property = false) :
    runLength property (front ++ behind) = front.length := by
  have nothing : behind.takeWhile (Glyph.satisfies property) = [] := by
    cases behind with
    | nil => rfl
    | cons glyph behind => rw [List.takeWhile_cons, stops glyph rfl, if_neg Bool.false_ne_true]
  rw [runLength, List.takeWhile_append_of_pos inside, nothing, List.append_nil]

theorem Parted.stops (parted : Parted behind) {property : Char → Bool} (space : property ' ' = false) :
    ∀ glyph ∈ behind.head?, glyph.satisfies property = false := by
  intro glyph first
  rw [parted glyph first]
  exact space

theorem Parted.head (parted : Parted behind) {c : Char} (other : c ≠ ' ') : behind.head? ≠ some (.char c) := by
  intro first
  exact other (Glyph.char.inj (parted _ first))

theorem Parted.fractionLength (parted : Parted behind) : fractionLength behind = 0 := by
  unfold Lexer.fractionLength
  split
  next => exact absurd rfl (parted.head (by decide))
  next => rfl

theorem word_stands {c : Char} {rest : List Glyph} (goesOn : ∀ glyph ∈ rest, glyph.satisfies isWordPart = true)
    (parted : Parted behind) :
    word (.char c) (rest ++ behind) = (.token (.ofWord (Glyph.encode (.char c :: rest))) .null, rest.length) := by
  have length := runLength_append goesOn (parted.stops (by decide : isWordPart ' ' = false))
  simp only [word, length, List.take_left]

theorem whole_stands {glyph : Glyph} {digits : List Glyph} (goesOn : ∀ glyph ∈ digits, glyph.satisfies isDigit = true)
    (parted : Parted behind) : number glyph (digits ++ behind) = (numberFinding (glyph :: digits) [], digits.length) := by
  have length := runLength_append goesOn (parted.stops (by decide : isDigit ' ' = false))
  rw [number_eq, length, List.drop_left, if_pos parted.fractionLength, List.take_left]

theorem fraction_stands {glyph : Glyph} {digits fraction : List Glyph}
    (goesOn : ∀ glyph ∈ digits, glyph.satisfies isDigit = true)
    (further : ∀ glyph ∈ fraction, glyph.satisfies isDigit = true) (some : fraction ≠ []) (parted : Parted behind) :
    number glyph (digits ++ .char '.' :: fraction ++ behind) =
      (numberFinding (glyph :: digits) fraction, (digits ++ .char '.' :: fraction).length) := by
  have length : runLength isDigit (digits ++ .char '.' :: (fraction ++ behind)) = digits.length := by
    refine runLength_append goesOn ?_
    rintro _ ⟨⟩
    rfl
  have fractional : Lexer.fractionLength (.char '.' :: (fraction ++ behind)) = fraction.length :=
    runLength_append further (parted.stops (by decide : isDigit ' ' = false))
  have behindPoint : (digits ++ .char '.' :: (fraction ++ behind)).drop (digits.length + 1) = fraction ++ behind := by
    rw [← List.drop_drop, List.drop_left, List.drop_one, List.tail_cons]
  have filled : fraction.length ≠ 0 := fun empty => some (List.eq_nil_of_length_eq_zero empty)
  rw [List.append_assoc, List.cons_append, number_eq, length, List.drop_left, fractional, if_neg filled, List.take_left,
    behindPoint, List.take_left]
  simp [Nat.add_assoc, Nat.add_comm 1]

theorem single_stands {c : Char} {kind : TokenKind} (found : singleMark c = some kind) (parted : Parted behind) :
    mark c behind = (.token kind .null, 0) := by
  have undoubled : doubleMark c ' ' = none := by
    unfold doubleMark
    split <;> simp_all
  cases behind with
  | nil => simp [mark, found]
  | cons glyph behind =>
    obtain rfl := parted glyph rfl
    simp [mark, undoubled, found]

end

/-- A text in the form of a token is taken for that token when it is parted from what stands behind it. -/
theorem TokenText.stands {text : List Glyph} {kind : TokenKind} {value : Literal} (form : TokenText text kind value) :
    ∃ glyph rest, text = glyph :: rest ∧
      ∀ behind, Parted behind → classify glyph (rest ++ behind) = (.token kind value, rest.length) := by
  cases form with
  | @word c rest starts goesOn =>
    refine ⟨.char c, rest, rfl, fun behind parted => ?_⟩
    have plain : c ≠ '/' := by
      rintro rfl
      exact absurd starts (by decide)
    rw [classify_plain (fun slash => plain slash.1), if_neg (by simp [wordStart_visible starts]), if_pos starts]
    exact word_stands goesOn parted
  | @whole c digits _ _ starts goesOn finite =>
    refine ⟨.char c, digits, rfl, fun behind parted => ?_⟩
    rw [classify_digit starts, whole_stands goesOn parted, finite]
  | @fraction c digits fraction _ _ starts goesOn further some finite =>
    refine ⟨.char c, digits ++ .char '.' :: fraction, rfl, fun behind parted => ?_⟩
    rw [classify_digit starts, fraction_stands goesOn further some parted, finite]
  | @string body text enclosed plain =>
    refine ⟨.char '"', body ++ [.char '"'], rfl, fun behind _ => ?_⟩
    rw [classify_quote, ← List.append_cons, quoted_plain enclosed behind plain, List.length_append]
    rfl
  | @single c _ found =>
    refine ⟨.char c, [], rfl, fun behind parted => ?_⟩
    rw [List.nil_append, classify_mark (singleMark_starts found), single_stands found parted]
    · rfl
    · rintro ⟨_, line | block⟩
      · exact parted.head (by decide) line
      · exact parted.head (by decide) block
  | @double c d _ found =>
    refine ⟨.char c, [.char d], rfl, fun behind _ => ?_⟩
    obtain ⟨starts, other⟩ := doubleMark_starts found
    rw [List.singleton_append, classify_mark starts]
    · simp [mark, found]
    · rintro ⟨_, line | block⟩
      · exact other (.inl (Glyph.char.inj (Option.some.inj line)))
      · exact other (.inr (Glyph.char.inj (Option.some.inj block)))

end Lexer
end Treewalk
