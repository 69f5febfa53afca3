import Mathlib.Algebra.Group.Nat.Defs
import Treewalk.Proofs.CharacterBytes
import Treewalk.Text.Quoted

/-! Quoted text can be read back. An escape tells which glyph it stands for, and the first quote without a
backslash is the last one: so what is quoted, and where it ends, can be seen from the text alone. -/

namespace Treewalk

namespace Text

theorem hex_length (width n : Nat) : (hex width n).length = width := by
  induction width generalizing n with
  | zero => rfl
  | succ width ih => rw [hex, List.length_append, ih]; rfl

private theorem hexDigit_injective : ∀ n < 16, ∀ m < 16, hexDigit n = hexDigit m → n = m := by
  decide

theorem hex_injective {width n m : Nat} (small : n < 16 ^ width) (less : m < 16 ^ width) (same : hex width n = hex width m) :
    n = m := by
  induction width generalizing n m with
  | zero => omega
  | succ width ih =>
    rw [hex, hex] at same
    obtain ⟨upper, last⟩ := List.append_inj' same rfl
    have digits := hexDigit_injective _ (Nat.mod_lt n (by decide)) _ (Nat.mod_lt m (by decide)) (List.cons.inj last).1
    have rest := ih (Nat.div_lt_of_lt_mul (by rwa [Nat.pow_succ, Nat.mul_comm] at small))
      (Nat.div_lt_of_lt_mul (by rwa [Nat.pow_succ, Nat.mul_comm] at less)) upper
    omega

def escapeWidth : Char → Nat
  | 'x' => 2
  | 'u' => 4
  | 'U' => 8
  | _ => 0

def ofEscape (number : Nat) : Char → Glyph
  | 'a' => .char '\x07'
  | 'b' => .char '\x08'
  | 'f' => .char '\x0c'
  | 'n' => .char '\n'
  | 'r' => .char '\r'
  | 't' => .char '\t'
  | 'v' => .char '\x0b'
  | 'x' => if number < 0x80 then .char (.ofNat number) else .stray (.ofNat number)
  | 'u' | 'U' => .char (.ofNat number)
  | mark => .char mark

private theorem ofEscape_bare {mark : Char} (bare : escapeWidth mark = 0) (number other : Nat) :
    ofEscape number mark = ofEscape other mark := by
  unfold ofEscape
  split
  case h_8 | h_9 | h_10 => cases bare
  all_goals rfl

/-- The glyph is shown as it is, or by an escape from which it can be read. -/
inductive Escaped : Glyph → Prop where
  | plain {c : Char} (shown : escaped (.char c) = [c]) (unquoted : c ≠ '"') (free : c ≠ '\\') : Escaped (.char c)
  | marked {glyph : Glyph} {mark : Char} (number : Nat) (shown : escaped glyph = '\\' :: mark :: hex (escapeWidth mark) number)
      (reads : ofEscape number mark = glyph) (small : number < 16 ^ escapeWidth mark ∨ escapeWidth mark = 0) : Escaped glyph

theorem escaped_char (c : Char) : Escaped (.char c) := by
  have code : Char.ofNat c.toNat = c := Char.ofNat_toNat c
  have shown : escaped (.char c) = escapedChar c := rfl
  unfold escapedChar at shown
  split at shown
  next special =>
    rcases Bool.or_eq_true_iff.mp special with quote | backslash
    · obtain rfl := beq_iff_eq.mp quote
      exact .marked 0 shown rfl (.inr rfl)
    · obtain rfl := beq_iff_eq.mp backslash
      exact .marked 0 shown rfl (.inr rfl)
  next free =>
    split at shown
    next =>
      simp only [Bool.or_eq_true, beq_iff_eq, not_or] at free
      exact .plain shown free.1 free.2
    next =>
      split at shown
      next letter found =>
        unfold escapeLetter at found
        split at found <;> cases found <;> exact .marked 0 shown rfl (.inr rfl)
      next =>
        split at shown
        next ascii =>
          have reads : ofEscape c.toNat 'x' = .char c := by
            rw [ofEscape, if_pos ascii, code]
          exact .marked c.toNat shown reads (.inl (Nat.lt_trans ascii (by decide)))
        split at shown
        next basic => exact .marked c.toNat shown (congrArg Glyph.char code) (.inl basic)
        next => exact .marked c.toNat shown (congrArg Glyph.char code) (.inl (Nat.lt_trans (char_bound c) (by decide)))

theorem escaped_stray {byte : UInt8} (high : 0x80 ≤ byte.toNat) : Escaped (.stray byte) := by
  have reads : ofEscape byte.toNat 'x' = .stray byte := by
    rw [ofEscape, if_neg (Nat.not_lt_of_le high), UInt8.ofNat_toNat]
  exact .marked byte.toNat rfl reads (.inl byte.toNat_lt)

theorem decode_escaped (text : Bytes) : ∀ glyph ∈ Glyph.decode text, Escaped glyph := by
  intro glyph inside
  cases glyph with
  | char c => exact escaped_char c
  | stray byte => exact escaped_stray (Glyph.decode_stray inside)

/-- An escape tells which glyph it stands for, and where it ends. -/
theorem Escaped.append {one two : Glyph} (first : Escaped one) (second : Escaped two) {rest behind : Bytes}
    (same : (escaped one).flatMap utf8 ++ rest = (escaped two).flatMap utf8 ++ behind) : one = two ∧ rest = behind := by
  cases first with
  | plain shown _ free =>
    cases second with
    | plain shownOther =>
      rw [shown, shownOther] at same
      simp only [List.flatMap_cons, List.flatMap_nil, List.append_nil] at same
      obtain ⟨rfl, left⟩ := utf8_append same
      exact ⟨rfl, left⟩
    | marked _ shownOther =>
      rw [shown, shownOther] at same
      simp only [List.flatMap_cons, List.append_assoc] at same
      exact absurd (utf8_append same).1 free
  | @marked _ mark number shown reads small =>
    cases second with
    | plain shownOther _ free =>
      rw [shown, shownOther] at same
      simp only [List.flatMap_cons, List.append_assoc] at same
      exact absurd (utf8_append same).1.symm free
    | @marked _ _ other shownOther readsOther smallOther =>
      rw [shown, shownOther] at same
      simp only [List.flatMap_cons, List.append_assoc] at same
      obtain ⟨rfl, marks⟩ := utf8_append (utf8_append same).2
      obtain ⟨digits, left⟩ := flatMap_utf8_append ((hex_length _ _).trans (hex_length _ _).symm) marks
      refine ⟨?_, left⟩
      rw [← reads, ← readsOther]
      by_cases bare : escapeWidth mark = 0
      · exact ofEscape_bare bare number other
      · rw [hex_injective (small.resolve_right bare) (smallOther.resolve_right bare) digits]

/-- No glyph is shown as a quote. -/
theorem Escaped.unquoted {glyph : Glyph} (shown : Escaped glyph) (rest behind : Bytes) :
    (escaped glyph).flatMap utf8 ++ rest ≠ utf8 '"' ++ behind := by
  intro same
  cases shown with
  | plain shown unquoted =>
    rw [shown] at same
    simp only [List.flatMap_cons, List.append_assoc] at same
    exact unquoted (utf8_append same).1
  | marked _ shown =>
    rw [shown] at same
    simp only [List.flatMap_cons, List.append_assoc] at same
    exact absurd (utf8_append same).1 (by decide)

/-- Escapes end at the first quote. -/
theorem flatMap_escaped_append {one two : List Glyph} (each : ∀ glyph ∈ one, Escaped glyph)
    (other : ∀ glyph ∈ two, Escaped glyph) {rest behind : Bytes} (same : (one.flatMap escaped).flatMap utf8 ++ (utf8 '"' ++ rest) =
      (two.flatMap escaped).flatMap utf8 ++ (utf8 '"' ++ behind)) : one = two ∧ rest = behind := by
  induction one generalizing two with
  | nil =>
    cases two with
    | nil => exact ⟨rfl, List.append_cancel_left same⟩
    | cons glyph two =>
      rw [List.flatMap_cons, List.flatMap_append, List.append_assoc] at same
      exact absurd same.symm ((other glyph List.mem_cons_self).unquoted _ _)
  | cons glyph one ih =>
    obtain ⟨here, later⟩ := List.forall_mem_cons.mp each
    cases two with
    | nil =>
      rw [List.flatMap_cons, List.flatMap_append, List.append_assoc] at same
      exact absurd same (here.unquoted _ _)
    | cons next two =>
      obtain ⟨there, others⟩ := List.forall_mem_cons.mp other
      simp only [List.flatMap_cons, List.flatMap_append, List.append_assoc] at same
      obtain ⟨rfl, tail⟩ := here.append there same
      obtain ⟨rfl, left⟩ := ih later others tail
      exact ⟨rfl, left⟩

/-- A quoted text tells what is quoted, and where it ends. -/
theorem quote_append {one two rest behind : Bytes} (same : quote one ++ rest = quote two ++ behind) :
    one = two ∧ rest = behind := by
  unfold quote at same
  simp only [List.append_assoc] at same
  obtain ⟨glyphs, left⟩ := flatMap_escaped_append (decode_escaped one) (decode_escaped two) (List.append_cancel_left same)
  refine ⟨?_, left⟩
  rw [← Glyph.encode_decode one, glyphs, Glyph.encode_decode]

private theorem hex_newline (width n : Nat) : '\n' ∉ hex width n := by
  have digit : ∀ n < 16, '\n' ≠ hexDigit n := by decide
  induction width generalizing n with
  | zero => exact List.not_mem_nil
  | succ width ih =>
    intro inside
    rcases List.mem_append.mp inside with upper | last
    · exact ih _ upper
    · exact digit _ (Nat.mod_lt _ (by decide)) (List.mem_singleton.mp last)

private theorem escaped_newline (glyph : Glyph) : '\n' ∉ escaped glyph := by
  cases glyph with
  | stray byte => simpa [escaped] using hex_newline 2 byte.toNat
  | char c =>
    rw [escaped, escapedChar]
    split
    next special =>
      rcases Bool.or_eq_true_iff.mp special with quote | backslash
      · simp [beq_iff_eq.mp quote]
      · simp [beq_iff_eq.mp backslash]
    split
    next printable =>
      rintro ⟨⟩
      · exact absurd printable (by decide)
      · contradiction
    split
    next letter found =>
      unfold escapeLetter at found
      split at found <;> cases found <;> decide
    split
    · simpa using hex_newline 2 c.toNat
    split
    · simpa using hex_newline 4 c.toNat
    · simpa using hex_newline 8 c.toNat

/-- Quoted text stands on one line. -/
theorem quote_newline (text : Bytes) : 0x0A ∉ quote text := by
  intro inside
  have content : ∃ c ∈ (Glyph.decode text).flatMap escaped, 0x0A ∈ utf8 c := by
    simpa [quote, utf8] using inside
  obtain ⟨c, member, byte⟩ := content
  obtain ⟨glyph, _, shown⟩ := List.mem_flatMap.mp member
  obtain rfl : c = '\n' := Char.toNat_inj.mp (utf8_ascii byte (by decide))
  exact escaped_newline glyph shown

end Text
end Treewalk
