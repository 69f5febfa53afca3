import Mathlib.Data.List.Induction
import Treewalk.Proofs.QuotedText
import Treewalk.Proofs.SourceTiling

/-! Places are counted right. A place is kept up to date glyph by glyph; in the end its offset is where a glyph
starts, its line counts the newlines before it, and its column counts the glyphs on its own line. -/

namespace Treewalk

namespace Glyph

/-- Only a newline has the byte of a newline. -/
theorem count_newline (glyph : Glyph) (high : ∀ byte, glyph = .stray byte → 0x80 ≤ byte.toNat) :
    glyph.bytes.count 0x0A = if glyph = Lexer.newline then 1 else 0 := by
  split
  next same =>
    rw [same]
    rfl
  next other =>
    refine List.count_eq_zero.mpr fun inside => ?_
    cases glyph with
    | stray byte =>
      obtain rfl := List.mem_singleton.mp inside
      exact absurd (high _ rfl) (by decide)
    | char c =>
      have code : c.toNat = '\n'.toNat := utf8_ascii inside (by decide)
      exact other (congrArg Glyph.char (Char.toNat_inj.mp code))

theorem count_encode_newline {glyphs : List Glyph} (high : ∀ byte, .stray byte ∈ glyphs → 0x80 ≤ byte.toNat) :
    (encode glyphs).count 0x0A = glyphs.count Lexer.newline := by
  induction glyphs with
  | nil => rfl
  | cons glyph glyphs ih =>
    have here := count_newline glyph fun byte same => high byte (same ▸ List.mem_cons_self)
    rw [encode_cons, List.count_append, here, ih fun byte member => high byte (List.mem_cons_of_mem _ member), List.count_cons,
      Nat.add_comm]
    simp only [beq_iff_eq]

end Glyph

namespace Position

/-- The place behind whole lines and a part of one more. -/
structure Behind (lines line : List Glyph) (pos : Position) : Prop where
  offset : pos.offset = (Glyph.encode (lines ++ line)).length
  number : pos.line = 1 + (lines ++ line).count Lexer.newline
  whole : lines = [] ∨ lines.getLast? = some Lexer.newline
  oneLine : Lexer.newline ∉ line
  column : pos.column = 1 + line.length

theorem afterAll_append (pos : Position) (first second : List Glyph) :
    pos.afterAll (first ++ second) = (pos.afterAll first).afterAll second :=
  List.foldl_append

theorem after_newline (pos : Position) : pos.after Lexer.newline = ⟨pos.offset + 1, pos.line + 1, 1⟩ :=
  rfl

theorem after_other (pos : Position) {glyph : Glyph} (other : glyph ≠ Lexer.newline) :
    pos.after glyph = ⟨pos.offset + glyph.bytes.length, pos.line, pos.column + 1⟩ := by
  have goesOn : glyph.isChar '\n' = false := by
    cases glyph with
    | stray byte => rfl
    | char c => simpa [Lexer.newline, Glyph.isChar] using other
  unfold after
  rw [goesOn]
  rfl

section

variable {lines line : List Glyph} {pos : Position}

theorem Behind.newline (behind : Behind lines line pos) :
    Behind (lines ++ line ++ [Lexer.newline]) [] (pos.after Lexer.newline) := by
  rw [after_newline]
  constructor
  · rw [List.append_nil, Glyph.length_encode_append, ← behind.offset]
    rfl
  · rw [List.append_nil, List.count_append, List.count_singleton_self, behind.number]
    dsimp only
    omega
  · exact .inr List.getLast?_concat
  · exact List.not_mem_nil
  · rfl

theorem Behind.glyph (behind : Behind lines line pos) {glyph : Glyph} (other : glyph ≠ Lexer.newline) :
    Behind lines (line ++ [glyph]) (pos.after glyph) := by
  rw [after_other pos other]
  constructor
  · rw [← List.append_assoc, Glyph.length_encode_append, ← behind.offset, Glyph.encode_cons, List.length_append]
    rfl
  · rw [← List.append_assoc, List.count_append, List.count_singleton, if_neg (by simpa using other)]
    exact behind.number
  · exact behind.whole
  · simpa using ⟨behind.oneLine, other.symm⟩
  · rw [List.length_append, behind.column]
    rfl

end

/-- Counting through glyphs leads behind them. -/
theorem afterAll_behind (glyphs : List Glyph) : ∃ lines line, glyphs = lines ++ line ∧ Behind lines line (start.afterAll glyphs) := by
  -- The count goes on at the end, so the induction takes the last glyph.
  induction glyphs using List.reverseRecOn with
  | nil => exact ⟨[], [], rfl, rfl, rfl, .inl rfl, List.not_mem_nil, rfl⟩
  | append_singleton glyphs glyph ih =>
    obtain ⟨lines, line, rfl, behind⟩ := ih
    rw [afterAll_append start (lines ++ line) [glyph]]
    by_cases ends : glyph = Lexer.newline
    · rw [ends]
      exact ⟨_, [], (List.append_nil _).symm, behind.newline⟩
    · exact ⟨lines, line ++ [glyph], List.append_assoc .., behind.glyph ends⟩

/-- How a place is counted out in a source. Its offset is where a glyph starts, or the end; before it stand
whole lines, and then glyphs of its own line. -/
structure Counts (source : Bytes) (pos : Position) (lines line after : List Glyph) : Prop where
  parts : Glyph.decode source = lines ++ line ++ after
  offset : pos.offset = (Glyph.encode (lines ++ line)).length
  number : pos.line = 1 + (source.take pos.offset).count 0x0A
  whole : lines = [] ∨ (Glyph.encode lines).getLast? = some 0x0A
  oneLine : 0x0A ∉ Glyph.encode line
  column : pos.column = 1 + line.length

def IsIn (source : Bytes) (pos : Position) : Prop :=
  ∃ lines line after, pos.Counts source lines line after

theorem isIn_afterAll {source : Bytes} {front back : List Glyph} (parts : Glyph.decode source = front ++ back) :
    (start.afterAll front).IsIn source := by
  obtain ⟨lines, line, rfl, behind⟩ := afterAll_behind front
  have high : ∀ byte, .stray byte ∈ lines ++ line → 0x80 ≤ byte.toNat := by
    intro byte member
    have inSource : .stray byte ∈ Glyph.decode source := parts ▸ List.mem_append_left _ member
    exact Glyph.decode_stray inSource
  have before : source.take (start.afterAll (lines ++ line)).offset = Glyph.encode (lines ++ line) := by
    rw [behind.offset, ← Glyph.encode_decode source, parts, Glyph.encode_append (lines ++ line), List.take_left]
  refine ⟨lines, line, back, parts, behind.offset, ?_, ?_, ?_, behind.column⟩
  · rw [before, Glyph.count_encode_newline high]
    exact behind.number
  · refine behind.whole.imp id fun ends => ?_
    obtain ⟨others, rfl⟩ := List.getLast?_eq_some_iff.mp ends
    rw [Glyph.encode_append]
    exact List.getLast?_concat
  · rw [← List.count_eq_zero, Glyph.count_encode_newline fun byte member => high byte (List.mem_append_right _ member)]
    exact List.count_eq_zero.mpr behind.oneLine

end Position

namespace Scan

/-- A piece gives a token or an error at one of its ends. -/
theorem add_places {places : Position → Prop} {piece : Piece} {start stop : Position} {scan : Scan} (first : places start)
    (last : places stop) (others : (∀ token ∈ scan.tokens, places token.pos) ∧ ∀ error ∈ scan.errors, places error.token.pos) :
    (∀ token ∈ (scan.add piece start stop).tokens, places token.pos) ∧
      ∀ error ∈ (scan.add piece start stop).errors, places error.token.pos := by
  obtain ⟨glyphs, finding⟩ := piece
  cases finding with
  | blank => exact others
  | token kind value => exact ⟨List.forall_mem_cons.mpr ⟨first, others.1⟩, others.2⟩
  | openComment => exact ⟨others.1, List.forall_mem_cons.mpr ⟨last, others.2⟩⟩
  | _ => exact ⟨others.1, List.forall_mem_cons.mpr ⟨first, others.2⟩⟩

/-- Tokens and errors are where counting through some of the glyphs leads. -/
theorem ofPieces_places {places : Position → Prop} (glyphs : List Glyph) {start : Position}
    (each : ∀ front back, glyphs = front ++ back → places (start.afterAll front)) :
    (∀ token ∈ (ofPieces start (Lexer.pieces glyphs)).tokens, places token.pos) ∧
      ∀ error ∈ (ofPieces start (Lexer.pieces glyphs)).errors, places error.token.pos := by
  fun_induction Lexer.pieces glyphs generalizing start with
  | case1 =>
    refine ⟨fun token member => ?_, List.forall_mem_nil _⟩
    obtain rfl := List.mem_singleton.mp member
    exact each [] [] rfl
  | case2 glyph rest finding length same ih =>
    have parts : glyph :: rest = (glyph :: rest.take length) ++ rest.drop length := by simp
    refine add_places (each [] _ rfl) (each _ _ parts) (ih fun front back split => ?_)
    rw [← Position.afterAll_append]
    refine each _ back ?_
    rw [parts, split, List.append_assoc]

end Scan

/-- Every token, the end included, and every lexical error is at a place of the source. -/
theorem scan_counts (source : Bytes) : (∀ token ∈ (scan source).tokens, token.pos.IsIn source) ∧
    ∀ error ∈ (scan source).errors, error.token.pos.IsIn source :=
  Scan.ofPieces_places _ fun _ _ parts => Position.isIn_afterAll parts

/-- A letter of two bytes, a newline, a byte that belongs to no character, a name and an open comment. -/
def strayLine : Bytes :=
  [0xC3, 0xA9, 0x0A, 0xFF, 0x20, 0x62, 0x20, 0x2F, 0x2A]

theorem strayLine_counts : (scan strayLine).tokens.map Token.pos = [⟨0, 1, 1⟩, ⟨5, 2, 3⟩, ⟨9, 2, 7⟩] ∧
    (scan strayLine).errors.map (·.token.pos) = [⟨3, 2, 1⟩, ⟨9, 2, 7⟩] ∧
    (∀ token ∈ (scan strayLine).tokens, token.pos.IsIn strayLine) ∧
    ∀ error ∈ (scan strayLine).errors, error.token.pos.IsIn strayLine :=
  ⟨by decide +kernel, by decide +kernel, scan_counts strayLine⟩

end Treewalk
