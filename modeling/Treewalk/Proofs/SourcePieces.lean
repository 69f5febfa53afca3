import Treewalk.Proofs.SourceCut

/-! What the pieces of a source are made of: blanks and comments that are passed over, tokens, and text
for which there is an error. -/

namespace Treewalk

/-- Text that a scan passes over in silence, in front of what is left of the source. -/
inductive Ignored : (text after : List Glyph) → Prop
  | blank {c : Char} {after : List Glyph} (space : Text.isBlank c = true) : Ignored [.char c] after
  | line {body after : List Glyph} (oneLine : Lexer.newline ∉ body) :
      Ignored (.char '/' :: .char '/' :: (body ++ [Lexer.newline])) after
  | lastLine {body : List Glyph} (oneLine : Lexer.newline ∉ body) : Ignored (.char '/' :: .char '/' :: body) []
  | comment {body after : List Glyph} (first : ¬ [.char '*', .char '/'] <:+: body ++ [.char '*']) :
      Ignored (.char '/' :: .char '*' :: (body ++ [.char '*', .char '/'])) after

def Unclosed (text after : List Glyph) : Prop :=
  ∃ body, text = .char '/' :: .char '*' :: body ∧ ¬ [.char '*', .char '/'] <:+: body ∧ after = []

def Glyph.FirstStray (text : List Glyph) (distance : Nat) : Prop :=
  ∃ before byte behind, text = before ++ .stray byte :: behind ∧ (∀ other, .stray other ∉ before) ∧
    distance = (Glyph.encode before).length

/-- Text that starts `offset` bytes into the source and is no token, and why it is none. -/
inductive Faulty (offset : Nat) : (text after : List Glyph) → Defect → Prop
  | byte {byte : UInt8} {after : List Glyph} : Faulty offset [.stray byte] after (.invalidByte offset)
  | quoted {body after : List Glyph} {distance : Nat} (first : Glyph.FirstStray body distance) :
      Faulty offset (.char '"' :: (body ++ [.char '"'])) after (.invalidByte (offset + (distance + 1)))
  | number {text after : List Glyph} (digits : ∀ glyph ∈ text, glyph.satisfies fun c => Lexer.isDigit c || c == '.') :
      Faulty offset text after (.invalidNumber (Glyph.encode text))
  | character {c : Char} {after : List Glyph} : Faulty offset [.char c] after (.unexpectedCharacter c)
  | unterminated {body : List Glyph} (opens : Lexer.quotation? body = none) :
      Faulty offset (.char '"' :: body) [] .unterminatedString

/-- What a finding says about the text of its piece. -/
def Finding.Fits (finding : Finding) (text after : List Glyph) : Prop :=
  match finding with
  | blank => Ignored text after
  | token kind _ => kind ≠ .eof ∧ kind ≠ .illegal
  | badByte distance => ∀ offset, Faulty offset text after (.invalidByte (offset + distance))
  | badNumber => ∀ offset, Faulty offset text after (.invalidNumber (Glyph.encode text))
  | badCharacter c => ∀ offset, Faulty offset text after (.unexpectedCharacter c)
  | openString => ∀ offset, Faulty offset text after .unterminatedString
  | openComment => Unclosed text after

namespace Lexer

theorem lineLength_text (glyphs : List Glyph) :
    (∃ body, newline ∉ body ∧ glyphs.take (lineLength glyphs) = body ++ [newline]) ∨
      newline ∉ glyphs ∧ lineLength glyphs = glyphs.length := by
  induction glyphs with
  | nil => exact .inr ⟨List.not_mem_nil, rfl⟩
  | cons glyph rest ih =>
    by_cases ends : glyph = newline
    · subst ends
      exact .inl ⟨[], List.not_mem_nil, rfl⟩
    · have goesOn : glyph.isChar '\n' = false := by
        cases glyph with
        | stray byte => rfl
        | char c => simpa [newline, Glyph.isChar] using ends
      rw [lineLength, goesOn]
      rcases ih with ⟨body, oneLine, taken⟩ | ⟨oneLine, whole⟩
      · refine .inl ⟨glyph :: body, ?_, by simpa using taken⟩
        exact List.not_mem_cons_of_ne_of_not_mem (Ne.symm ends) oneLine
      · refine .inr ⟨List.not_mem_cons_of_ne_of_not_mem (Ne.symm ends) oneLine, by simp [whole]⟩

theorem mark_prefix (glyph : Glyph) (rest : List Glyph) :
    [.char '*', .char '/'] <+: glyph :: rest ↔ glyph = .char '*' ∧ rest.head? = some (.char '/') := by
  cases rest <;> simp [List.cons_prefix_cons, eq_comm]

/-- A comment that is closed ends at its first closing mark. -/
theorem commentLength?_some {glyphs : List Glyph} {length : Nat} (closed : commentLength? glyphs = some length) :
    ∃ body, ¬ [.char '*', .char '/'] <:+: body ++ [.char '*'] ∧ glyphs.take length = body ++ [.char '*', .char '/'] := by
  induction glyphs generalizing length with
  | nil => cases closed
  | cons glyph rest ih =>
    rw [commentLength?_cons] at closed
    split at closed
    next ends =>
      obtain ⟨rfl, starts⟩ := ends
      obtain ⟨rest, rfl⟩ := List.head?_eq_some_iff.mp starts
      cases closed
      exact ⟨[], by simp [List.infix_cons_iff], by simp⟩
    next goesOn =>
      obtain ⟨fewer, shorter, rfl⟩ := Option.map_eq_some_iff.mp closed
      obtain ⟨body, first, taken⟩ := ih shorter
      refine ⟨glyph :: body, ?_, by simpa using taken⟩
      rw [List.cons_append, List.infix_cons_iff, mark_prefix]
      rintro (⟨rfl, next⟩ | later)
      · have starts : body ++ [.char '*', .char '/'] <+: rest := taken ▸ List.take_prefix fewer rest
        obtain ⟨behind, rfl⟩ := starts
        cases body with
        | nil => simp at next
        | cons other body => exact goesOn ⟨rfl, by simpa using next⟩
      · exact first later

theorem commentLength?_none {glyphs : List Glyph} (opens : commentLength? glyphs = none) :
    ¬ [.char '*', .char '/'] <:+: glyphs := by
  induction glyphs with
  | nil => simp
  | cons glyph rest ih =>
    rw [commentLength?_cons] at opens
    split at opens
    · cases opens
    next goesOn =>
      rw [List.infix_cons_iff, mark_prefix]
      rintro (ends | later)
      · exact goesOn ends
      · exact ih (Option.map_eq_none_iff.mp opens) later

theorem push_badByte {inner : Quotation} {skipped body : List Glyph} {glyph : Glyph} {c : Char} {distance : Nat}
    (plain : ∀ other, .stray other ∉ skipped) (bad : ∀ distance, inner.badByte = some distance → Glyph.FirstStray body distance)
    (here : (inner.push skipped glyph c).badByte = some distance) : Glyph.FirstStray (skipped ++ glyph :: body) distance := by
  unfold Quotation.push at here
  dsimp only at here
  cases glyph with
  | stray byte => exact ⟨skipped, byte, body, rfl, plain, (Option.some.inj here).symm⟩
  | char c =>
    obtain ⟨further, found, rfl⟩ := Option.map_eq_some_iff.mp here
    obtain ⟨before, byte, behind, rfl, first, rfl⟩ := bad further found
    refine ⟨skipped ++ .char c :: before, byte, behind, by simp, ?_, ?_⟩
    · intro other member
      rcases List.mem_append.mp member with early | late
      · exact plain other early
      · exact first other (List.mem_of_ne_of_mem (by simp) late)
    · simp only [Glyph.encode, List.flatMap_append, List.flatMap_cons, List.length_append]
      omega

/-- The text of a string that is closed, and its first stray byte. -/
theorem quotation?_text {glyphs : List Glyph} {found : Quotation} (closed : quotation? glyphs = some found) :
    ∃ body, glyphs.take found.length = body ++ [.char '"'] ∧
      ∀ distance, found.badByte = some distance → Glyph.FirstStray body distance := by
  induction glyphs using quotation?.induct generalizing found with
  | case1 => simp [quotation?] at closed
  | case2 rest =>
    simp only [quotation?, Option.some.injEq] at closed
    subst closed
    refine ⟨[], rfl, ?_⟩
    intro distance none
    cases none
  | case3 glyph rest ih =>
    simp only [quotation?] at closed
    obtain ⟨inner, shorter, rfl⟩ := Option.map_eq_some_iff.mp closed
    obtain ⟨body, taken, bad⟩ := ih shorter
    refine ⟨.char '\\' :: glyph :: body, by simp [Quotation.push, taken], ?_⟩
    intro distance here
    exact push_badByte  (by simp) bad here
  | case4 glyph rest unquoted unescaped ih =>
    by_cases escape : glyph = .char '\\'
    · cases rest with
      | nil =>
        rw [escape] at closed
        simp [quotation?] at closed
      | cons next rest => exact absurd rfl (unescaped next rest escape)
    · rw [quotation?_plain unquoted escape] at closed
      obtain ⟨inner, shorter, rfl⟩ := Option.map_eq_some_iff.mp closed
      obtain ⟨body, taken, bad⟩ := ih shorter
      refine ⟨glyph :: body, by simp [Quotation.push, taken], ?_⟩
      intro distance here
      exact push_badByte  (by simp) bad here

theorem quoted_fits (rest : List Glyph) :
    (quoted rest).1.Fits (.char '"' :: rest.take (quoted rest).2) (rest.drop (quoted rest).2) := by
  unfold quoted
  cases closed : quotation? rest with
  | none =>
    intro offset
    rw [List.take_length, List.drop_length]
    exact .unterminated closed
  | some found =>
    obtain ⟨body, taken, bad⟩ := quotation?_text closed
    dsimp only
    cases here : found.badByte with
    | none => exact ⟨TokenKind.noConfusion, TokenKind.noConfusion⟩
    | some distance =>
      intro offset
      dsimp only
      rw [taken]
      exact .quoted (bad distance here)

theorem runLength_satisfies (property : Char → Bool) (glyphs : List Glyph) :
    ∀ glyph ∈ glyphs.take (runLength property glyphs), glyph.satisfies property = true := by
  intro glyph member
  have same := List.prefix_iff_eq_take.mp (List.takeWhile_prefix (Glyph.satisfies property) (l := glyphs))
  rw [runLength, ← same] at member
  exact List.all_eq_true.mp List.all_takeWhile glyph member

theorem satisfies_or {first second : Char → Bool} {glyph : Glyph} (holds : glyph.satisfies first = true) :
    glyph.satisfies (fun c => first c || second c) = true := by
  cases glyph with
  | stray byte => cases holds
  | char c => exact Bool.or_eq_true_iff.mpr (.inl holds)

theorem fractionLength_text (rest : List Glyph) (some : fractionLength rest ≠ 0) :
    ∀ part ∈ rest.take (fractionLength rest + 1), part.satisfies fun c => isDigit c || c == '.' := by
  unfold fractionLength at some ⊢
  split at some
  next rest =>
    rw [List.take_succ_cons]
    intro part member
    rcases List.mem_cons.mp member with rfl | digit
    · rfl
    · exact satisfies_or (runLength_satisfies isDigit rest part digit)
  next => exact absurd rfl some

theorem number_text (glyph : Glyph) (rest : List Glyph) (digit : glyph.satisfies isDigit = true) :
    ∀ part ∈ glyph :: rest.take (number glyph rest).2, part.satisfies fun c => isDigit c || c == '.' := by
  have whole : ∀ part ∈ glyph :: rest.take (runLength isDigit rest), part.satisfies fun c => isDigit c || c == '.' := by
    intro part member
    rcases List.mem_cons.mp member with rfl | digits
    · exact satisfies_or digit
    · exact satisfies_or (runLength_satisfies isDigit rest part digits)
  rw [number_eq]
  split
  · exact whole
  next some =>
    dsimp only
    rw [Nat.add_assoc, Nat.add_comm 1, List.take_add, ← List.cons_append]
    intro part member
    rcases List.mem_append.mp member with early | late
    · exact whole part early
    · exact fractionLength_text _ some part late

theorem numberFinding_fits (whole fraction text after : List Glyph)
    (digits : ∀ glyph ∈ text, glyph.satisfies fun c => isDigit c || c == '.') :
    (numberFinding whole fraction).Fits text after := by
  unfold numberFinding
  dsimp only
  split
  · exact ⟨TokenKind.noConfusion, TokenKind.noConfusion⟩
  · exact fun offset => .number digits

theorem mark_fits (c : Char) (rest : List Glyph) :
    (mark c rest).1.Fits (.char c :: rest.take (mark c rest).2) (rest.drop (mark c rest).2) := by
  have legal : ∀ kind, kind ∉ otherKinds → kind ≠ .eof ∧ kind ≠ .illegal := by
    intro kind other
    constructor <;> rintro rfl <;> exact other (by decide)
  unfold mark
  dsimp only
  split
  next found =>
    split at found
    · exact legal _ (doubleMark_kind found)
    · cases found
  next found => exact legal _ (singleMark_kind found)
  next => exact fun offset => .character

theorem classify_plain_fits {c : Char} {rest : List Glyph}
    (plain : ¬ (c = '/' ∧ (rest.head? = some (.char '/') ∨ rest.head? = some (.char '*')))) :
    (classify (.char c) rest).1.Fits (.char c :: rest.take (classify (.char c) rest).2)
      (rest.drop (classify (.char c) rest).2) := by
  rw [classify_plain plain]
  split
  next space => exact .blank space
  split
  · exact ⟨TokenKind.ofWord_ne _ (by decide), TokenKind.ofWord_ne _ (by decide)⟩
  split
  next digit =>
    have digits := number_text (.char c) rest digit
    rw [number_eq] at digits ⊢
    split <;> split at digits
    all_goals first | exact numberFinding_fits _ _ _ _ digits | contradiction
  split
  next quote =>
    obtain rfl := beq_iff_eq.mp quote
    exact quoted_fits rest
  · exact mark_fits c rest

/-- Every piece is what it is found to be. -/
theorem classify_fits (glyph : Glyph) (rest : List Glyph) :
    (classify glyph rest).1.Fits (glyph :: rest.take (classify glyph rest).2) (rest.drop (classify glyph rest).2) := by
  cases glyph with
  | stray byte => exact fun offset => .byte
  | char c =>
    by_cases plain : c = '/' ∧ (rest.head? = some (.char '/') ∨ rest.head? = some (.char '*'))
    · obtain ⟨rfl, starts⟩ := plain
      rcases starts with line | block
      · obtain ⟨rest, rfl⟩ := List.head?_eq_some_iff.mp line
        rw [classify, List.take_succ_cons, List.drop_succ_cons]
        rcases lineLength_text rest with ⟨body, oneLine, taken⟩ | ⟨oneLine, whole⟩
        · rw [taken]
          exact .line oneLine
        · rw [whole, List.take_length, List.drop_length]
          exact .lastLine oneLine
      · obtain ⟨rest, rfl⟩ := List.head?_eq_some_iff.mp block
        rw [classify]
        cases closed : commentLength? rest with
        | none =>
          rw [List.take_succ_cons, List.drop_succ_cons, List.take_length, List.drop_length]
          exact ⟨rest, rfl, commentLength?_none closed, rfl⟩
        | some length =>
          obtain ⟨body, first, taken⟩ := commentLength?_some closed
          rw [List.take_succ_cons, taken]
          exact .comment first
    · exact classify_plain_fits plain

end Lexer

end Treewalk
