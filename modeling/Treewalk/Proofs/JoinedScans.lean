import Treewalk.Proofs.SourceJoin
import Treewalk.Proofs.SourcePlaces

/-! Scanning line by line. A newline parts what stands before it from what stands behind it, unless a string or
a comment is open there: the scan of the whole is the first scan without its end, and then the second one
with its places moved down. -/

namespace Treewalk

/-- Where a place comes to be when a text and a newline are put in front of its source. -/
def Position.below (text : Bytes) (pos : Position) : Position :=
  ⟨pos.offset + (text.length + 1), pos.line + (1 + text.count 0x0A : Nat), pos.column⟩

def Defect.below (text : Bytes) : Defect → Defect
  | invalidByte offset => invalidByte (offset + (text.length + 1))
  | defect => defect

def Token.below (text : Bytes) : Token → Token :=
  Token.relocate (Position.below text)

def Diagnostic.below (text : Bytes) (error : Diagnostic) : Diagnostic :=
  { error with token := error.token.below text, defect := error.defect.below text }

def Scan.below (text : Bytes) (scan : Scan) : Scan :=
  ⟨scan.tokens.map (Token.below text), scan.errors.map (Diagnostic.below text)⟩

section

variable (text : Bytes)

theorem Position.after_below (pos : Position) (glyph : Glyph) : (pos.below text).after glyph = (pos.after glyph).below text := by
  by_cases ends : glyph = Lexer.newline
  · rw [ends, after_newline, after_newline]
    simp only [below, Position.mk.injEq, and_true]
    omega
  · rw [after_other _ ends, after_other _ ends]
    simp only [below, Position.mk.injEq, and_true]
    omega

theorem Position.afterAll_below (pos : Position) (glyphs : List Glyph) :
    (pos.below text).afterAll glyphs = (pos.afterAll glyphs).below text := by
  induction glyphs generalizing pos with
  | nil => rfl
  | cons glyph glyphs ih =>
    change ((pos.below text).after glyph).afterAll glyphs = ((pos.after glyph).afterAll glyphs).below text
    rw [after_below, ih]

namespace Scan

theorem add_below (piece : Piece) (start stop : Position) (scan : Scan) :
    (scan.below text).add piece (start.below text) (stop.below text) = (scan.add piece start stop).below text := by
  obtain ⟨glyphs, finding⟩ := piece
  cases finding with
  | badByte distance =>
    have moved : (start.below text).offset + distance = start.offset + distance + (text.length + 1) := by
      simp only [Position.below]
      omega
    simp only [add, moved]
    rfl
  | _ => rfl

/-- Pieces that start further down give the same tokens and errors there. -/
theorem ofPieces_below (start : Position) (pieces : List Piece) :
    ofPieces (start.below text) pieces = (ofPieces start pieces).below text := by
  induction pieces generalizing start with
  | nil => rfl
  | cons piece pieces ih =>
    simp only [ofPieces]
    rw [Position.afterAll_below, ih, add_below]

end Scan
end

/-- The line behind a source and a newline starts where the source starts, moved down. -/
theorem Position.start_below (text : Bytes) :
    start.afterAll (Glyph.decode text ++ [Lexer.newline]) = start.below text := by
  obtain ⟨lines, line, parts, behind⟩ := afterAll_behind (Glyph.decode text)
  have offset := behind.offset
  have number := behind.number
  rw [← parts, Glyph.encode_decode] at offset
  rw [← parts, ← Glyph.count_encode_newline fun _ => Glyph.decode_stray, Glyph.encode_decode] at number
  rw [afterAll_append]
  change (start.afterAll (Glyph.decode text)).after Lexer.newline = start.below text
  rw [after_newline, offset, number]
  simp only [below, start, Position.mk.injEq, and_true]
  omega

/-- A piece that is closed before a newline is the same in front of it; only a comment at the end takes the
newline too. -/
theorem Lexer.classify_joined (glyph : Glyph) (front back : List Glyph) (closed : (classify glyph front).1.isOpen = false) :
    (classify glyph (front ++ newline :: back) = classify glyph front ∧ (classify glyph front).2 ≤ front.length) ∨
      classify glyph front = (.blank, front.length) ∧ classify glyph (front ++ newline :: back) = (.blank, front.length + 1) := by
  obtain ⟨finding, lengths⟩ := classify_trailing front glyph
  rcases classify_newline front back glyph with opens | ⟨same, _⟩
  · rw [finding, closed] at opens
    cases opens
  rw [same]
  rcases lengths with ⟨equal, inside⟩ | ⟨silent, all, more⟩
  · exact .inl ⟨Prod.ext finding equal, inside⟩
  · have blank : (classify glyph front).1 = .blank := by
      rcases silent with blank | opens
      · exact blank
      · rw [closed] at opens
        cases opens
    exact .inr ⟨Prod.ext blank all, Prod.ext (finding.trans blank) more⟩

namespace Scan

/-- Behind pieces that are closed the scan goes on in the next line. -/
theorem ofPieces_joined (start : Position) (front back : List Glyph)
    (closed : ∀ piece ∈ Lexer.pieces front, piece.finding.isOpen = false) :
    ∃ tokens errors, ∃ stop : Position, ofPieces start (Lexer.pieces front) = ⟨tokens ++ [.endAt stop], errors⟩ ∧
      ofPieces start (Lexer.pieces (front ++ Lexer.newline :: back)) =
        ⟨tokens ++ (ofPieces (start.afterAll (front ++ [Lexer.newline])) (Lexer.pieces back)).tokens,
          errors ++ (ofPieces (start.afterAll (front ++ [Lexer.newline])) (Lexer.pieces back)).errors⟩ := by
  fun_induction Lexer.pieces front generalizing start with
  | case1 =>
    have first : Lexer.pieces (Lexer.newline :: back) = ⟨[Lexer.newline], .blank⟩ :: Lexer.pieces back := by
      have blank : Text.isBlank '\n' = true := by decide
      simp [Lexer.pieces_cons, Lexer.newline, Lexer.classify, blank]
    refine ⟨[], [], start, rfl, ?_⟩
    rw [List.nil_append, first]
    rfl
  | case2 glyph front finding length found ih =>
    obtain ⟨here, others⟩ := List.forall_mem_cons.mp closed
    have cases := Lexer.classify_joined glyph front back (by rwa [found])
    have kind := Lexer.classify_kind glyph front
    rw [found] at cases kind
    rw [List.cons_append, Lexer.pieces_cons]
    rcases cases with ⟨same, inside⟩ | ⟨shorter, longer⟩
    · obtain ⟨tokens, errors, stop, alone, joined⟩ := ih (start.afterAll (glyph :: front.take length)) others
      obtain ⟨firsts, faults, _, _, added⟩ := add_eq ⟨glyph :: front.take length, finding⟩ start
        (start.afterAll (glyph :: front.take length)) kind
      have place : (start.afterAll (glyph :: front.take length)).afterAll (front.drop length ++ [Lexer.newline]) =
          start.afterAll (glyph :: front ++ [Lexer.newline]) := by
        rw [← Position.afterAll_append, List.cons_append, ← List.append_assoc, List.take_append_drop, List.cons_append]
      rw [same, List.take_append_of_le_length inside, List.drop_append_of_le_length inside]
      rw [place] at joined
      refine ⟨firsts ++ tokens, faults ++ errors, stop, ?_, ?_⟩
      · rw [ofPieces, alone, added, List.append_assoc]
      · rw [ofPieces, joined, added, List.append_assoc, List.append_assoc]
    · -- The comment takes the newline, and the next piece is the first one behind it.
      obtain ⟨rfl, rfl⟩ := Prod.mk.inj shorter
      have behind : front ++ Lexer.newline :: back = (front ++ [Lexer.newline]) ++ back := by simp
      have whole : (front ++ [Lexer.newline]).length = front.length + 1 := by simp
      rw [longer, behind, ← whole, List.take_left, List.drop_left, List.take_length, List.drop_length, Lexer.pieces]
      exact ⟨[], [], _, rfl, rfl⟩

end Scan

/-- Where no error is incomplete, no piece is open. -/
theorem scan_closed {source : Bytes} (complete : Diagnostic.anyIncomplete (scan source).errors = false) :
    ∀ piece ∈ Lexer.pieces (Glyph.decode source), piece.finding.isOpen = false := by
  obtain ⟨_, errors, stop, _, opens, goesOn⟩ := Scan.ofPieces_append .start (Lexer.pieces (Glyph.decode source))
    fun piece member => Lexer.pieces_kind member
  have alone := goesOn []
  rw [List.append_nil] at alone
  have same : (scan source).errors = errors := by
    unfold scan
    rw [alone]
    exact List.append_nil errors
  intro piece member
  refine Bool.eq_false_iff.mpr fun isOpen => ?_
  rw [same, opens ⟨piece, member, isOpen⟩] at complete
  cases complete

/-- Sources that are parted by a newline are scanned one after another, unless something is open at the end
of the first one. -/
theorem scan_joined (front back : Bytes) (complete : Diagnostic.anyIncomplete (scan front).errors = false) :
    ∃ tokens, ∃ stop : Position, (scan front).tokens = tokens ++ [.endAt stop] ∧
      scan (front ++ Bytes.newline ++ back) =
        ⟨tokens ++ (scan back).tokens.map (Token.below front),
          (scan front).errors ++ (scan back).errors.map (Diagnostic.below front)⟩ := by
  obtain ⟨tokens, errors, stop, alone, joined⟩ := Scan.ofPieces_joined .start _ (Glyph.decode back) (scan_closed complete)
  rw [Position.start_below, Scan.ofPieces_below] at joined
  refine ⟨tokens, stop, ?_, ?_⟩
  · unfold scan
    rw [alone]
  · unfold scan
    rw [Lexer.decode_joined, joined, alone]
    rfl

/-- Two lines that end in half a character and in a comment, and one with a byte in a string that belongs to no
character. -/
def halfLines : Bytes × Bytes :=
  ([0x61, 0x0A, 0xE2, 0x82, 0x2F, 0x2F], [0x22, 0xFF, 0x22, 0x62])

theorem halfLines_joined : Diagnostic.anyIncomplete (scan halfLines.1).errors = false ∧
    (scan halfLines.2).errors.map Diagnostic.message = [.ofString "Invalid UTF-8 encoding at byte 1."] ∧
    (scan (halfLines.1 ++ Bytes.newline ++ halfLines.2)).errors.map Diagnostic.message =
      [.ofString "Invalid UTF-8 encoding at byte 2.", .ofString "Invalid UTF-8 encoding at byte 3.",
        .ofString "Invalid UTF-8 encoding at byte 8."] ∧
    ∃ tokens, ∃ stop : Position, (scan halfLines.1).tokens = tokens ++ [.endAt stop] ∧
      scan (halfLines.1 ++ Bytes.newline ++ halfLines.2) =
        ⟨tokens ++ (scan halfLines.2).tokens.map (Token.below halfLines.1),
          (scan halfLines.1).errors ++ (scan halfLines.2).errors.map (Diagnostic.below halfLines.1)⟩ := by
  have complete : Diagnostic.anyIncomplete (scan halfLines.1).errors = false := by decide +kernel
  exact ⟨complete, by decide +kernel, by decide +kernel, scan_joined halfLines.1 halfLines.2 complete⟩

end Treewalk
