import Treewalk.Proofs.CharacterBytes
import Treewalk.Token.Lexer

/-! Cutting a source behind a newline. No character and no token reaches across a newline but strings
and block comments, so what stands before the cut is read as it was before, unless a string or a
comment is open there. -/

namespace Treewalk

def Finding.isOpen : Finding → Bool
  | openString | openComment => true
  | _ => false

namespace TokenKind

theorem ofWord_cases (word : Bytes) :
    (ofWord word ∈ keywords ∧ (ofWord word).bytes = word) ∨
      ofWord word = .identifier ∧ ∀ kind ∈ keywords, kind.bytes ≠ word := by
  unfold ofWord
  cases found : keywords.find? (·.bytes == word) with
  | some kind => exact .inl ⟨List.mem_of_find?_eq_some found, by simpa using List.find?_some found⟩
  | none => exact .inr ⟨rfl, by simpa using found⟩

theorem ofWord_ne (word : Bytes) {kind : TokenKind} (other : kind ∉ identifier :: keywords) : ofWord word ≠ kind := by
  rintro rfl
  rcases ofWord_cases word with ⟨keyword, _⟩ | ⟨name, _⟩
  · exact other (List.mem_cons_of_mem _ keyword)
  · exact other (name ▸ List.mem_cons_self)

end TokenKind

namespace Lexer

def newline : Glyph := .char '\n'

theorem decode_joined (front back : Bytes) :
    Glyph.decode (front ++ Bytes.newline ++ back) = Glyph.decode front ++ newline :: Glyph.decode back :=
  Glyph.decode_parted front '\n' (by decide) back

theorem decode_ended (source : Bytes) : Glyph.decode (source ++ Bytes.newline) = Glyph.decode source ++ [newline] := by
  have parted := Glyph.decode_parted source '\n' (by decide) []
  rwa [List.append_nil] at parted

variable (front back : List Glyph)

theorem takeWhile_newline (property : Char → Bool) (stops : property '\n' = false) :
    (front ++ newline :: back).takeWhile (Glyph.satisfies property) = front.takeWhile (Glyph.satisfies property) := by
  induction front with
  | nil => simp [newline, Glyph.satisfies, stops]
  | cons glyph front ih => simp only [List.cons_append, List.takeWhile_cons, ih]

theorem runLength_newline (property : Char → Bool) (stops : property '\n' = false) :
    runLength property (front ++ newline :: back) = runLength property front := by
  rw [runLength, takeWhile_newline front back property stops, runLength]

theorem runLength_le (property : Char → Bool) : runLength property front ≤ front.length :=
  (List.takeWhile_sublist _).length_le

theorem lineLength_newline : lineLength (front ++ newline :: back) = lineLength (front ++ [newline]) := by
  induction front with
  | nil => rfl
  | cons glyph front ih =>
    simp only [List.cons_append, lineLength, ih]

theorem lineLength_le : lineLength (front ++ [newline]) ≤ front.length + 1 := by
  induction front with
  | nil => exact Nat.le_refl _
  | cons glyph front ih =>
    simp only [List.cons_append, lineLength, List.length_cons]
    split
    · omega
    · omega

theorem head_newline : (front ++ newline :: back).head? = (front ++ [newline]).head? := by
  cases front <;> rfl

theorem commentLength?_cons (glyph : Glyph) (rest : List Glyph) :
    commentLength? (glyph :: rest) =
      if glyph = .char '*' ∧ rest.head? = some (.char '/') then some 2 else (commentLength? rest).map (· + 1) := by
  rw [commentLength?.eq_def]
  split
  next => simp_all
  next => simp_all
  next glyph rest other same =>
    cases same
    rw [if_neg]
    intro found
    obtain ⟨rfl, starts⟩ := found
    obtain ⟨rest, rfl⟩ := List.head?_eq_some_iff.mp starts
    exact other rest rfl rfl

/-- A comment that is closed before the cut is closed where it was. -/
theorem commentLength?_newline {length : Nat} (closed : commentLength? (front ++ [newline]) = some length) :
    commentLength? (front ++ newline :: back) = some length ∧ length ≤ front.length := by
  induction front generalizing length with
  | nil => simp [commentLength?, newline] at closed
  | cons glyph front ih =>
    rw [List.cons_append, commentLength?_cons] at closed ⊢
    rw [head_newline front back]
    split at closed
    next ends =>
      cases closed
      refine ⟨if_pos ends, ?_⟩
      cases front with
      | nil => simp [newline] at ends
      | cons next front => simp
    next goesOn =>
      obtain ⟨fewer, shorter, rfl⟩ := Option.map_eq_some_iff.mp closed
      obtain ⟨same, inside⟩ := ih shorter
      rw [if_neg goesOn, same]
      exact ⟨rfl, by simpa using inside⟩

theorem quotation?_plain {glyph : Glyph} {rest : List Glyph} (unquoted : glyph ≠ .char '"')
    (unescaped : glyph ≠ .char '\\') :
    quotation? (glyph :: rest) = (quotation? rest).map (·.push [] glyph glyph.shown) := by
  rw [quotation?.eq_def]
  split <;> simp_all

/-- A string that is closed before the cut is the string that it was. -/
theorem quotation?_newline {found : Quotation} (closed : quotation? (front ++ [newline]) = some found) :
    quotation? (front ++ newline :: back) = some found ∧ found.length ≤ front.length := by
  induction front using quotation?.induct generalizing found with
  | case1 => simp [quotation?, newline] at closed
  | case2 rest =>
    simp only [List.cons_append, quotation?, Option.some.injEq] at closed ⊢
    subst closed
    exact ⟨rfl, by simp⟩
  | case3 glyph rest ih =>
    simp only [List.cons_append, quotation?] at closed ⊢
    obtain ⟨inner, shorter, rfl⟩ := Option.map_eq_some_iff.mp closed
    obtain ⟨same, inside⟩ := ih shorter
    rw [same]
    refine ⟨rfl, ?_⟩
    simp only [Quotation.push, List.length_cons, List.length_nil]
    omega
  | case4 glyph rest unquoted unescaped ih =>
    by_cases escape : glyph = .char '\\'
    · cases rest with
      | nil =>
        rw [escape] at closed
        simp [quotation?] at closed
      | cons next rest => exact absurd rfl (unescaped next rest escape)
    · rw [List.cons_append, quotation?_plain unquoted escape] at closed ⊢
      obtain ⟨inner, shorter, rfl⟩ := Option.map_eq_some_iff.mp closed
      obtain ⟨same, inside⟩ := ih shorter
      rw [same]
      refine ⟨rfl, ?_⟩
      simp only [Quotation.push, List.length_cons, List.length_nil]
      omega

theorem word_newline (glyph : Glyph) : word glyph (front ++ newline :: back) = word glyph front := by
  have stops : isWordPart '\n' = false := by decide
  unfold word
  dsimp only
  rw [runLength_newline front back _ stops, List.take_append_of_le_length (runLength_le front _)]

def fractionLength : List Glyph → Nat
  | .char '.' :: rest => runLength isDigit rest
  | _ => 0

theorem fractionLength_newline : fractionLength (front ++ newline :: back) = fractionLength front := by
  have stops : isDigit '\n' = false := by decide
  cases front with
  | nil => rfl
  | cons glyph front =>
    rw [List.cons_append, fractionLength.eq_def, fractionLength.eq_def (glyph :: front)]
    cases glyph with
    | stray byte => rfl
    | char c =>
      by_cases point : c = '.'
      · subst point
        exact runLength_newline front back isDigit stops
      · simp [point]

theorem number_eq (glyph : Glyph) (rest : List Glyph) : number glyph rest =
    if fractionLength (rest.drop (runLength isDigit rest)) = 0 then
      (numberFinding (glyph :: rest.take (runLength isDigit rest)) [], runLength isDigit rest)
    else
      (numberFinding (glyph :: rest.take (runLength isDigit rest))
          ((rest.drop (runLength isDigit rest + 1)).take (fractionLength (rest.drop (runLength isDigit rest)))),
        runLength isDigit rest + 1 + fractionLength (rest.drop (runLength isDigit rest))) := rfl

theorem fractionLength_le : fractionLength front ≠ 0 → fractionLength front + 1 ≤ front.length := by
  intro some
  unfold fractionLength at some ⊢
  split at some
  next rest => simpa using runLength_le rest isDigit
  next => exact absurd rfl some

theorem number_newline (glyph : Glyph) : number glyph (front ++ newline :: back) = number glyph front := by
  have stops : isDigit '\n' = false := by decide
  have inside := runLength_le front isDigit
  rw [number_eq, number_eq, runLength_newline front back _ stops, List.drop_append_of_le_length inside,
    List.take_append_of_le_length inside, fractionLength_newline]
  split
  · rfl
  next some =>
    have fits := fractionLength_le _ some
    rw [List.length_drop] at fits
    rw [List.drop_append_of_le_length (by omega), List.take_append_of_le_length (by rw [List.length_drop]; omega)]

theorem number_le (glyph : Glyph) : (number glyph front).2 ≤ front.length := by
  have inside := runLength_le front isDigit
  rw [number_eq]
  split
  · exact inside
  next some =>
    have fits := fractionLength_le _ some
    rw [List.length_drop] at fits
    dsimp only
    omega

theorem mark_newline (c : Char) : mark c (front ++ newline :: back) = mark c front := by
  cases front with
  | nil =>
    have none : doubleMark c '\n' = none := by
      unfold doubleMark
      split <;> simp_all
    simp [mark, newline, none]
  | cons glyph front => cases glyph <;> rfl

theorem mark_le (c : Char) : (mark c front).2 ≤ front.length := by
  cases front with
  | nil =>
    unfold mark
    dsimp only
    split <;> simp_all
  | cons glyph front =>
    unfold mark
    dsimp only
    split <;> simp

theorem quoted_newline : (quoted (front ++ [newline])).1.isOpen = true ∨
    (quoted (front ++ newline :: back) = quoted (front ++ [newline]) ∧ (quoted (front ++ [newline])).2 ≤ front.length) := by
  unfold quoted
  cases closed : quotation? (front ++ [newline]) with
  | none => exact .inl rfl
  | some found =>
    obtain ⟨same, inside⟩ := quotation?_newline front back closed
    rw [same]
    refine .inr ⟨rfl, ?_⟩
    dsimp only
    split <;> exact inside

theorem classify_plain {c : Char} {rest : List Glyph}
    (plain : ¬ (c = '/' ∧ (rest.head? = some (.char '/') ∨ rest.head? = some (.char '*')))) :
    classify (.char c) rest =
      if Text.isBlank c then (.blank, 0)
      else if isWordStart c then word (.char c) rest
      else if isDigit c then number (.char c) rest
      else if c == '"' then quoted rest
      else mark c rest := by
  rw [classify.eq_def]
  dsimp only
  split
  next => simp at plain
  next => simp at plain
  next => rfl

theorem classify_plain_newline {c : Char}
    (plain : ¬ (c = '/' ∧ ((front ++ [newline]).head? = some (.char '/') ∨ (front ++ [newline]).head? = some (.char '*')))) :
    (classify (.char c) (front ++ [newline])).1.isOpen = true ∨
      (classify (.char c) (front ++ newline :: back) = classify (.char c) (front ++ [newline]) ∧
        (classify (.char c) (front ++ [newline])).2 ≤ front.length) := by
  rw [classify_plain plain, classify_plain (by rwa [head_newline])]
  split
  · exact .inr ⟨rfl, Nat.zero_le _⟩
  split
  · rw [word_newline, word_newline]
    exact .inr ⟨rfl, runLength_le front _⟩
  split
  · rw [number_newline, number_newline]
    exact .inr ⟨rfl, number_le front _⟩
  split
  · exact quoted_newline front back
  · rw [mark_newline, mark_newline]
    exact .inr ⟨rfl, mark_le front c⟩

/-- A piece that starts before the cut is what it was, or it is open at the cut. Only the comment that
takes the newline reaches the cut itself. -/
theorem classify_newline (glyph : Glyph) :
    (classify glyph (front ++ [newline])).1.isOpen = true ∨
      (classify glyph (front ++ newline :: back) = classify glyph (front ++ [newline]) ∧
        (classify glyph (front ++ [newline])).2 ≤ front.length + 1) := by
  cases glyph with
  | stray byte => exact .inr ⟨rfl, Nat.zero_le _⟩
  | char c =>
    by_cases plain : c = '/' ∧ ((front ++ [newline]).head? = some (.char '/') ∨ (front ++ [newline]).head? = some (.char '*'))
    · obtain ⟨rfl, starts⟩ := plain
      cases front with
      | nil => simp [newline] at starts
      | cons next front =>
        simp only [List.cons_append, List.head?_cons, Option.some.injEq] at starts
        rcases starts with rfl | rfl
        · have inside := lineLength_le front
          simp only [List.cons_append, classify, lineLength_newline front back, List.length_cons]
          exact .inr ⟨trivial, by omega⟩
        · simp only [List.cons_append, classify]
          cases closed : commentLength? (front ++ [newline]) with
          | none => exact .inl rfl
          | some length =>
            obtain ⟨same, inside⟩ := commentLength?_newline front back closed
            rw [same]
            exact .inr ⟨rfl, by simp only [List.length_cons]; omega⟩
    · rcases classify_plain_newline front back plain with opens | ⟨same, inside⟩
      · exact .inl opens
      · exact .inr ⟨same, Nat.le_succ_of_le inside⟩

theorem pieces_cons (glyph : Glyph) (rest : List Glyph) : pieces (glyph :: rest) =
    ⟨glyph :: rest.take (classify glyph rest).2, (classify glyph rest).1⟩ :: pieces (rest.drop (classify glyph rest).2) := by
  rw [pieces]

/-- A source is cut into the pieces before the cut and those behind it, unless one is open there. -/
theorem pieces_newline : (∃ piece ∈ pieces (front ++ [newline]), piece.finding.isOpen = true) ∨
    pieces (front ++ newline :: back) = pieces (front ++ [newline]) ++ pieces back := by
  -- Each piece takes something off the front, so the induction is on how long it is.
  induction long : front.length using Nat.strongRecOn generalizing front with
  | _ size ih =>
    cases front with
    | nil => exact .inr (by simp [pieces_cons, newline, classify, pieces, show Text.isBlank '\n' = true by decide])
    | cons glyph front =>
      rw [List.cons_append, List.cons_append, pieces_cons, pieces_cons glyph (front ++ newline :: back)]
      rcases classify_newline front back glyph with opens | ⟨same, inside⟩
      · exact .inl ⟨_, List.mem_cons_self, opens⟩
      rw [same]
      generalize (classify glyph (front ++ [newline])).2 = length at inside ⊢
      by_cases before : length ≤ front.length
      · rw [List.take_append_of_le_length before, List.take_append_of_le_length before,
          List.drop_append_of_le_length before, List.drop_append_of_le_length before]
        have shorter : (front.drop length).length < size := by
          rw [← long, List.length_drop, List.length_cons]
          omega
        rcases ih _ shorter (front.drop length) rfl with ⟨piece, member, opens⟩ | parts
        · exact .inl ⟨piece, List.mem_cons_of_mem _ member, opens⟩
        · exact .inr (by rw [parts, List.cons_append])
      · obtain rfl : length = front.length + 1 := by omega
        have behind : front ++ newline :: back = (front ++ [newline]) ++ back := by simp
        have whole : (front ++ [newline]).length = front.length + 1 := by simp
        rw [behind, ← whole, List.take_left, List.drop_left, List.take_length, List.drop_length]
        exact .inr (by simp [pieces])

theorem numberFinding_kind {whole fraction : List Glyph} {kind : TokenKind} {value : Literal}
    (finds : numberFinding whole fraction = .token kind value) : kind = .number := by
  unfold numberFinding at finds
  dsimp only at finds
  split at finds <;> cases finds
  rfl

def otherKinds : List TokenKind :=
  [.eof, .illegal, .number, .string]

theorem doubleMark_kind {c d : Char} {kind : TokenKind} (found : doubleMark c d = some kind) : kind ∉ otherKinds := by
  unfold doubleMark at found
  split at found <;> cases found <;> decide

theorem singleMark_kind {c : Char} {kind : TokenKind} (found : singleMark c = some kind) : kind ∉ otherKinds := by
  unfold singleMark at found
  split at found <;> cases found <;> decide

theorem mark_kind {c : Char} {rest : List Glyph} {kind : TokenKind} {value : Literal}
    (finds : (mark c rest).1 = .token kind value) : kind ∉ otherKinds := by
  unfold mark at finds
  dsimp only at finds
  split at finds
  next found =>
    cases finds
    split at found
    · exact doubleMark_kind found
    · cases found
  next found =>
    cases finds
    exact singleMark_kind found
  next => cases finds

/-- No piece is read as the token that marks the end. -/
theorem classify_kind (glyph : Glyph) (rest : List Glyph) (value : Literal) :
    (classify glyph rest).1 ≠ .token .eof value := by
  cases glyph with
  | stray byte => exact Finding.noConfusion
  | char c =>
    rw [classify.eq_def]
    dsimp only
    split
    · exact Finding.noConfusion
    · split <;> exact Finding.noConfusion
    split
    · exact Finding.noConfusion
    split
    · intro same
      simp only [word, Finding.token.injEq] at same
      exact TokenKind.ofWord_ne _ (by decide) same.1
    split
    · rw [number_eq]
      split <;> exact fun same => nomatch numberFinding_kind same
    split
    · unfold quoted
      split
      · exact Finding.noConfusion
      · split <;> exact fun same => by cases same
    · exact fun same => mark_kind same (by decide)

theorem pieces_kind {glyphs : List Glyph} {piece : Piece} (member : piece ∈ pieces glyphs) (value : Literal) :
    piece.finding ≠ .token .eof value := by
  fun_induction pieces glyphs with
  | case1 => cases member
  | case2 glyph rest finding length same ih =>
    rcases List.mem_cons.mp member with rfl | later
    · have kind := classify_kind glyph rest value
      rwa [same] at kind
    · exact ih later

end Lexer

namespace Scan

/-- What a piece contributes does not depend on what follows it. -/
theorem add_eq (piece : Piece) (start stop : Position) (inner : ∀ value, piece.finding ≠ .token .eof value) :
    ∃ tokens errors, (∀ token ∈ tokens, token.isEnd = false) ∧
      (piece.finding.isOpen = true → Diagnostic.anyIncomplete errors = true) ∧
      ∀ scan : Scan, scan.add piece start stop = ⟨tokens ++ scan.tokens, errors ++ scan.errors⟩ := by
  obtain ⟨glyphs, finding⟩ := piece
  cases finding with
  | blank => exact ⟨[], [], by simp, by simp [Finding.isOpen], fun scan => rfl⟩
  | token kind value =>
    have other : kind ≠ .eof := by
      intro same
      exact inner value (by rw [same])
    exact ⟨[_], [], by simp [Token.isEnd, other], by simp [Finding.isOpen], fun scan => rfl⟩
  | badByte | badNumber | badCharacter => exact ⟨[], [_], by simp, by simp [Finding.isOpen], fun scan => rfl⟩
  | openString | openComment => exact ⟨[], [_], by simp, by simp [Diagnostic.anyIncomplete], fun scan => rfl⟩

/-- The scan of pieces goes on behind others: the first ones give tokens and errors of their own. -/
theorem ofPieces_append (start : Position) (pieces : List Piece)
    (inner : ∀ piece ∈ pieces, ∀ value, piece.finding ≠ .token .eof value) :
    ∃ tokens errors stop, (∀ token ∈ tokens, token.isEnd = false) ∧
      ((∃ piece ∈ pieces, piece.finding.isOpen = true) → Diagnostic.anyIncomplete errors = true) ∧
      ∀ others, ofPieces start (pieces ++ others) =
        ⟨tokens ++ (ofPieces stop others).tokens, errors ++ (ofPieces stop others).errors⟩ := by
  induction pieces generalizing start with
  | nil => exact ⟨[], [], start, by simp, by simp, fun others => rfl⟩
  | cons piece pieces ih =>
    obtain ⟨tokens, errors, stop, plain, opens, rest⟩ := ih (start.afterAll piece.glyphs)
      fun other member => inner other (List.mem_cons_of_mem _ member)
    obtain ⟨firsts, faults, plainFirst, opensFirst, added⟩ := add_eq piece start (start.afterAll piece.glyphs)
      (inner piece List.mem_cons_self)
    refine ⟨firsts ++ tokens, faults ++ errors, stop, ?_, ?_, ?_⟩
    · intro token member
      rcases List.mem_append.mp member with early | late
      · exact plainFirst token early
      · exact plain token late
    · intro some
      obtain ⟨found, member, isOpen⟩ := some
      unfold Diagnostic.anyIncomplete at opens opensFirst ⊢
      rw [List.any_append, Bool.or_eq_true]
      rcases List.mem_cons.mp member with rfl | later
      · exact .inl (opensFirst isOpen)
      · exact .inr (opens ⟨found, later, isOpen⟩)
    · intro others
      rw [List.cons_append, ofPieces, rest others, added, List.append_assoc, List.append_assoc]

end Scan

/-- Cutting a source behind a newline cuts its tokens, unless a string or a comment is open there. -/
theorem scan_newline (front back : Bytes) :
    Diagnostic.anyIncomplete (scan (front ++ Bytes.newline)).errors = true ∨
      ∃ tokens errors, ∃ stop : Position, (∀ token ∈ tokens, token.isEnd = false) ∧
        scan (front ++ Bytes.newline) = ⟨tokens ++ [.endAt stop], errors⟩ ∧
        scan (front ++ Bytes.newline ++ back) =
          ⟨tokens ++ (Scan.ofPieces stop (Lexer.pieces (Glyph.decode back))).tokens,
            errors ++ (Scan.ofPieces stop (Lexer.pieces (Glyph.decode back))).errors⟩ := by
  unfold scan
  rw [Lexer.decode_joined, Lexer.decode_ended]
  obtain ⟨tokens, errors, stop, plain, opens, goesOn⟩ := Scan.ofPieces_append .start
    (Lexer.pieces (Glyph.decode front ++ [Lexer.newline])) fun piece member => Lexer.pieces_kind member
  have alone := goesOn []
  rw [List.append_nil] at alone
  rw [alone]
  rcases Lexer.pieces_newline (Glyph.decode front) (Glyph.decode back) with pending | parts
  · exact .inl (by simpa [Scan.ofPieces] using opens pending)
  · refine .inr ⟨tokens, errors, stop, plain, by simp [Scan.ofPieces], ?_⟩
    rw [parts, goesOn]

end Treewalk
