import Treewalk.Proofs.GlyphBytes

/-! The bytes of characters. No character starts as another one does, and the bytes of a character are read back
as that character, whatever stands behind them. So text is what its bytes are decoded to. -/

namespace Treewalk

variable {c d : Char} {first second : Bytes}

theorem char_valid (c : Char) : c.toNat < 0xD800 ∨ 0xDFFF < c.toNat ∧ c.toNat < 0x110000 :=
  c.valid

theorem char_bound (c : Char) : c.toNat < 0x110000 := by
  have valid := char_valid c
  omega

/-- The four lengths of a character. -/
private theorem utf8_cases (c : Char) :
    (c.toNat < 0x80 ∧ utf8 c = [.ofNat c.toNat]) ∨
    (0x80 ≤ c.toNat ∧ c.toNat < 0x800 ∧ utf8 c = [.ofNat (0xC0 + c.toNat / 0x40), .ofNat (0x80 + c.toNat % 0x40)]) ∨
    (0x800 ≤ c.toNat ∧ c.toNat < 0x10000 ∧ utf8 c =
      [.ofNat (0xE0 + c.toNat / 0x1000), .ofNat (0x80 + c.toNat / 0x40 % 0x40), .ofNat (0x80 + c.toNat % 0x40)]) ∨
    0x10000 ≤ c.toNat ∧ c.toNat < 0x110000 ∧ utf8 c =
      [.ofNat (0xF0 + c.toNat / 0x40000), .ofNat (0x80 + c.toNat / 0x1000 % 0x40), .ofNat (0x80 + c.toNat / 0x40 % 0x40),
        .ofNat (0x80 + c.toNat % 0x40)] := by
  have bound := char_bound c
  unfold utf8
  dsimp only
  split
  next one => exact .inl ⟨one, rfl⟩
  split
  next more two => exact .inr (.inl ⟨by omega, two, rfl⟩)
  split
  next more three => exact .inr (.inr (.inl ⟨by omega, three, rfl⟩))
  next more => exact .inr (.inr (.inr ⟨by omega, bound, rfl⟩))

/-- A byte below `0x80` is a character of its own. -/
theorem utf8_ascii {byte : UInt8} (inside : byte ∈ utf8 c) (small : byte.toNat < 0x80) : c.toNat = byte.toNat := by
  rcases utf8_cases c with ⟨_, bytes⟩ | ⟨_, _, bytes⟩ | ⟨_, _, bytes⟩ | ⟨_, _, bytes⟩ <;> rw [bytes] at inside <;>
    simp only [List.mem_cons, List.not_mem_nil, or_false, ← UInt8.toNat_inj, UInt8.toNat_ofNat'] at inside <;> omega

/-- No character starts as another one does. -/
theorem utf8_append (same : utf8 c ++ first = utf8 d ++ second) : c = d ∧ first = second := by
  have numbers : c.toNat = d.toNat := by
    rcases utf8_cases c with ⟨_, bytes⟩ | ⟨_, _, bytes⟩ | ⟨_, _, bytes⟩ | ⟨_, _, bytes⟩ <;>
      rcases utf8_cases d with ⟨_, others⟩ | ⟨_, _, others⟩ | ⟨_, _, others⟩ | ⟨_, _, others⟩ <;>
        rw [bytes, others] at same <;>
          simp only [List.cons_append, List.nil_append, List.cons.injEq, ← UInt8.toNat_inj, UInt8.toNat_ofNat'] at same <;>
            omega
  obtain rfl := Char.toNat_inj.mp numbers
  exact ⟨rfl, List.append_cancel_left same⟩

/-- Texts of equally many characters can be told apart. -/
theorem flatMap_utf8_append {one two : List Char} (length : one.length = two.length)
    (same : one.flatMap utf8 ++ first = two.flatMap utf8 ++ second) : one = two ∧ first = second := by
  induction one generalizing two with
  | nil =>
    obtain rfl := List.eq_nil_of_length_eq_zero length.symm
    exact ⟨rfl, same⟩
  | cons c one ih =>
    cases two with
    | nil => cases length
    | cons d two =>
      simp only [List.flatMap_cons, List.append_assoc] at same
      obtain ⟨rfl, rest⟩ := utf8_append same
      obtain ⟨rfl, behind⟩ := ih (Nat.succ.inj length) rest
      exact ⟨rfl, behind⟩

/-- A second byte within the bounds that the leading byte sets. -/
private theorem second_within {one two : UInt8} (low high lower upper : UInt8)
    (middle : 0x80 ≤ two.toNat ∧ two.toNat ≤ 0xBF)
    (above : one.toNat = low.toNat → lower.toNat ≤ two.toNat) (below : one.toNat = high.toNat → two.toNat ≤ upper.toNat) :
    (if one == low then lower else 0x80).toNat ≤ two.toNat ∧ two.toNat ≤ (if one == high then upper else 0xBF).toNat := by
  simp only [beq_iff_eq]
  constructor
  · split
    next same => exact above (congrArg UInt8.toNat same)
    next => exact middle.1
  · split
    next same => exact below (congrArg UInt8.toNat same)
    next => exact middle.2

private theorem toNat_byte {n : Nat} (small : n < 0x100) : (UInt8.ofNat n).toNat = n :=
  UInt8.toNat_ofNat_of_lt' small

private theorem leading_two {one two : UInt8} (lead : 0xC2 ≤ one.toNat ∧ one.toNat ≤ 0xDF)
    (tail : 0x80 ≤ two.toNat ∧ two.toNat ≤ 0xBF) (rest : Bytes) : Glyph.leading one (two :: rest) ≠ none := by
  simp only [Glyph.leading, Glyph.isContinuation, UInt8.lt_iff_toNat_lt, UInt8.le_iff_toNat_le, Bool.and_eq_true,
    decide_eq_true_eq, UInt8.reduceToNat]
  rw [if_neg (by omega), if_pos lead, if_pos tail]
  exact Option.some_ne_none _

private theorem leading_three {one two three : UInt8} (lead : 0xE0 ≤ one.toNat ∧ one.toNat ≤ 0xEF)
    (middle : 0x80 ≤ two.toNat ∧ two.toNat ≤ 0xBF) (low : one.toNat = 0xE0 → 0xA0 ≤ two.toNat)
    (high : one.toNat = 0xED → two.toNat ≤ 0x9F) (tail : 0x80 ≤ three.toNat ∧ three.toNat ≤ 0xBF) (rest : Bytes) :
    Glyph.leading one (two :: three :: rest) ≠ none := by
  have within := second_within 0xE0 0xED 0xA0 0x9F middle low high
  simp only [Glyph.leading, Glyph.isContinuation, UInt8.lt_iff_toNat_lt, UInt8.le_iff_toNat_le, Bool.and_eq_true,
    decide_eq_true_eq, UInt8.reduceToNat]
  rw [if_neg (by omega), if_neg (by omega), if_pos lead, if_pos ⟨within, tail⟩]
  exact Option.some_ne_none _

private theorem leading_four {one two three four : UInt8} (lead : 0xF0 ≤ one.toNat ∧ one.toNat ≤ 0xF4)
    (middle : 0x80 ≤ two.toNat ∧ two.toNat ≤ 0xBF) (low : one.toNat = 0xF0 → 0x90 ≤ two.toNat)
    (high : one.toNat = 0xF4 → two.toNat ≤ 0x8F) (next : 0x80 ≤ three.toNat ∧ three.toNat ≤ 0xBF)
    (tail : 0x80 ≤ four.toNat ∧ four.toNat ≤ 0xBF) (rest : Bytes) :
    Glyph.leading one (two :: three :: four :: rest) ≠ none := by
  have within := second_within 0xF0 0xF4 0x90 0x8F middle low high
  simp only [Glyph.leading, Glyph.isContinuation, UInt8.lt_iff_toNat_lt, UInt8.le_iff_toNat_le, Bool.and_eq_true,
    decide_eq_true_eq, UInt8.reduceToNat]
  rw [if_neg (by omega), if_neg (by omega), if_neg (by omega), if_pos lead, if_pos ⟨⟨within, next⟩, tail⟩]
  exact Option.some_ne_none _

/-- The bytes of a character are taken for a character. -/
private theorem leading_utf8 {byte : UInt8} {more : Bytes} (bytes : utf8 c = byte :: more) (rest : Bytes) :
    Glyph.leading byte (more ++ rest) ≠ none := by
  have valid := char_valid c
  rcases utf8_cases c with ⟨one, same⟩ | ⟨_, _, same⟩ | ⟨_, _, same⟩ | ⟨_, _, same⟩ <;>
    obtain ⟨rfl, rfl⟩ := List.cons.inj (bytes.symm.trans same)
  · have ascii : UInt8.ofNat c.toNat < 0x80 := UInt8.lt_iff_toNat_lt.mpr (by rwa [toNat_byte (by omega)])
    unfold Glyph.leading
    rw [if_pos ascii]
    exact Option.some_ne_none _
  · apply leading_two <;> simp (disch := omega) only [toNat_byte] <;> omega
  · apply leading_three <;> simp (disch := omega) only [toNat_byte] <;> omega
  · apply leading_four <;> simp (disch := omega) only [toNat_byte] <;> omega

namespace Glyph

theorem decodeAfter_drop (skip : Nat) (text : Bytes) : decodeAfter skip text = decode (text.drop skip) := by
  induction text generalizing skip with
  | nil => rw [List.drop_nil, decode, decodeAfter, decodeAfter]
  | cons byte rest ih =>
    cases skip with
    | zero => rfl
    | succ skip => exact ih skip

/-- A character is read back, whatever stands behind it. -/
theorem decode_utf8 (c : Char) (rest : Bytes) : decode (utf8 c ++ rest) = .char c :: decode rest := by
  cases bytes : utf8 c with
  | nil => exact absurd bytes (bytes_ne_nil (.char c))
  | cons byte more =>
    rw [List.cons_append, decode, decodeAfter]
    cases found : leading byte (more ++ rest) with
    | none => exact absurd found (leading_utf8 bytes rest)
    | some pair =>
      obtain ⟨d, extra⟩ := pair
      have same : utf8 d ++ (more ++ rest).drop extra = utf8 c ++ rest := by
        rw [leading_bytes found, List.cons_append, List.take_append_drop, bytes, List.cons_append]
      obtain ⟨rfl, behind⟩ := utf8_append same
      dsimp only
      rw [decodeAfter_drop, behind]

theorem decode_letters (letters : List Char) (rest : Bytes) :
    decode (letters.flatMap utf8 ++ rest) = letters.map .char ++ decode rest := by
  induction letters with
  | nil => rfl
  | cons c letters ih => rw [List.flatMap_cons, List.append_assoc, decode_utf8, ih, List.map_cons, List.cons_append]

@[simp] theorem decode_nil : decode [] = [] := by
  rw [decode, decodeAfter]

theorem decode_text (letters : List Char) : decode (letters.flatMap utf8) = letters.map .char := by
  have read := decode_letters letters []
  rwa [List.append_nil, decode_nil, List.append_nil] at read

theorem encode_letters (letters : List Char) : encode (letters.map .char) = letters.flatMap utf8 :=
  List.flatMap_map ..

/-- Glyphs without a stray byte are characters. -/
theorem letters_of_plain {glyphs : List Glyph} (plain : ∀ byte, .stray byte ∉ glyphs) :
    ∃ letters : List Char, glyphs = letters.map .char := by
  induction glyphs with
  | nil => exact ⟨[], rfl⟩
  | cons glyph glyphs ih =>
    obtain ⟨letters, rfl⟩ := ih fun byte inside => plain byte (.tail _ inside)
    cases glyph with
    | char c => exact ⟨c :: letters, rfl⟩
    | stray byte => exact absurd List.mem_cons_self (plain byte)

/-- A byte below `0x80` continues no character. -/
theorem leading_ascii (first : UInt8) (front : Bytes) {byte : UInt8} (ascii : byte < 0x80) (back : Bytes) :
    leading first (front ++ byte :: back) = leading first front := by
  have high : ∀ special greater : UInt8, 0x80 ≤ greater →
      ¬ (if first = special then greater else 0x80 : UInt8) ≤ byte := by
    intro special greater bound
    split
    · exact UInt8.not_le.mpr (Std.lt_of_lt_of_le ascii bound)
    · exact UInt8.not_le.mpr ascii
  have ends : isContinuation byte = false := by
    simp [isContinuation, UInt8.not_le.mpr ascii]
  unfold leading
  split
  · rfl
  split
  · cases front with
    | nil => simp [ends]
    | cons second front => rfl
  split
  · rcases front with _ | ⟨second, _ | ⟨third, front⟩⟩
    · cases back with
      | nil => rfl
      | cons third back => simp [high 0xE0 0xA0 (by decide)]
    · simp [ends]
    · rfl
  split
  · rcases front with _ | ⟨second, _ | ⟨third, _ | ⟨fourth, front⟩⟩⟩
    · rcases back with _ | ⟨third, _ | ⟨fourth, back⟩⟩
      · rfl
      · rfl
      · simp [high 0xF0 0x90 (by decide)]
    · cases back with
      | nil => rfl
      | cons fourth back => simp [ends]
    · simp [ends]
    · rfl
  · rfl

theorem leading_within {first : UInt8} {front : Bytes} {c : Char} {extra : Nat}
    (found : leading first front = some (c, extra)) : extra ≤ front.length := by
  unfold leading at found
  grind

theorem decodeAfter_ascii (skip : Nat) (front : Bytes) {byte : UInt8} (ascii : byte < 0x80) (back : Bytes)
    (inside : skip ≤ front.length) :
    decodeAfter skip (front ++ byte :: back) = decodeAfter skip front ++ decode (byte :: back) := by
  induction front generalizing skip with
  | nil =>
    obtain rfl : skip = 0 := by simpa using inside
    rfl
  | cons first front ih =>
    cases skip with
    | succ skip => exact ih skip (by simpa using inside)
    | zero =>
      rw [List.cons_append, decodeAfter, decodeAfter, leading_ascii first front ascii]
      cases found : leading first front with
      | none => exact congrArg _ (ih 0 (Nat.zero_le _))
      | some pair => exact congrArg _ (ih pair.2 (leading_within found))

/-- A character of one byte parts what stands before it from what stands behind it. -/
theorem decode_parted (front : Bytes) (c : Char) (single : c.toNat < 0x80) (back : Bytes) :
    decode (front ++ utf8 c ++ back) = decode front ++ .char c :: decode back := by
  have bytes : utf8 c = [.ofNat c.toNat] := by
    unfold utf8
    exact if_pos single
  have ascii : UInt8.ofNat c.toNat < 0x80 := UInt8.lt_iff_toNat_lt.mpr (by rwa [toNat_byte (by omega)])
  rw [← decode_utf8, bytes, List.append_assoc]
  exact decodeAfter_ascii 0 front ascii back (Nat.zero_le _)

end Glyph

namespace Bytes

theorem isText_plain {text : Bytes} : text.isText = true ↔ ∀ byte, .stray byte ∉ Glyph.decode text := by
  unfold isText
  constructor
  · intro all byte inside
    cases List.all_eq_true.mp all _ inside
  · intro plain
    obtain ⟨letters, same⟩ := Glyph.letters_of_plain plain
    rw [same]
    simp [Glyph.satisfies]

/-- What is text is made of characters. -/
theorem isText_iff {text : Bytes} : text.isText = true ↔ ∃ letters : List Char, text = letters.flatMap utf8 := by
  rw [isText_plain]
  constructor
  · intro plain
    obtain ⟨letters, same⟩ := Glyph.letters_of_plain plain
    exact ⟨letters, by rw [← Glyph.encode_letters, ← same, Glyph.encode_decode]⟩
  · rintro ⟨letters, rfl⟩
    rw [Glyph.decode_text]
    simp

end Bytes
end Treewalk
