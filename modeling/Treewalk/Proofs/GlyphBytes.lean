import Treewalk.Text.Glyph

/-! Decoding loses nothing: the bytes of the glyphs of a text, put together, are the text. -/

namespace Treewalk.Glyph

private theorem toNat_ofNat {n : Nat} (valid : n < 0xD800 ∨ 0xDFFF < n ∧ n < 0x110000) : (Char.ofNat n).toNat = n := by
  unfold Char.ofNat
  rw [dif_pos valid]
  rfl

private theorem ofNat_eq {n : Nat} {byte : UInt8} (same : n = byte.toNat) : UInt8.ofNat n = byte := by
  rw [same, UInt8.ofNat_toNat]

private theorem isContinuation_range {byte : UInt8} (continues : isContinuation byte = true) :
    0x80 ≤ byte.toNat ∧ byte.toNat ≤ 0xBF := by
  simpa [isContinuation, UInt8.le_iff_toNat_le] using continues

/-- The bounds on a second byte, which are narrower behind two of the leading bytes. -/
private theorem second_range {first second low high lower upper : UInt8} (least : 0x80 ≤ lower) (greatest : upper ≤ 0xBF)
    (above : (if first == low then lower else 0x80) ≤ second) (below : second ≤ if first == high then upper else 0xBF) :
    (0x80 ≤ second.toNat ∧ second.toNat ≤ 0xBF) ∧ (first.toNat = low.toNat → lower.toNat ≤ second.toNat) ∧
      (first.toNat = high.toNat → second.toNat ≤ upper.toNat) := by
  simp only [beq_iff_eq, UInt8.le_iff_toNat_le, ← UInt8.toNat_inj] at least greatest above below
  have bottom : (0x80 : UInt8).toNat = 0x80 := rfl
  have top : (0xBF : UInt8).toNat = 0xBF := rfl
  split at above <;> split at below <;> omega

private theorem utf8_two {c : Char} {first second : UInt8} (lead : 0xC2 ≤ first.toNat ∧ first.toNat ≤ 0xDF)
    (tail : 0x80 ≤ second.toNat ∧ second.toNat ≤ 0xBF)
    (value : c.toNat = (first.toNat - 0xC0) * 0x40 + (second.toNat - 0x80)) : utf8 c = [first, second] := by
  unfold utf8
  dsimp only
  rw [value, if_neg (by omega), if_pos (by omega), ofNat_eq (by omega : _ = first.toNat),
    ofNat_eq (by omega : _ = second.toNat)]

private theorem utf8_three {c : Char} {first second third : UInt8} (lead : 0xE0 ≤ first.toNat ∧ first.toNat ≤ 0xEF)
    (middle : 0x80 ≤ second.toNat ∧ second.toNat ≤ 0xBF) (low : first.toNat = 0xE0 → 0xA0 ≤ second.toNat)
    (tail : 0x80 ≤ third.toNat ∧ third.toNat ≤ 0xBF)
    (value : c.toNat = (first.toNat - 0xE0) * 0x1000 + (second.toNat - 0x80) * 0x40 + (third.toNat - 0x80)) :
    utf8 c = [first, second, third] := by
  unfold utf8
  dsimp only
  rw [value, if_neg (by omega), if_neg (by omega), if_pos (by omega), ofNat_eq (by omega : _ = first.toNat),
    ofNat_eq (by omega : _ = second.toNat), ofNat_eq (by omega : _ = third.toNat)]

private theorem utf8_four {c : Char} {first second third fourth : UInt8} (lead : 0xF0 ≤ first.toNat ∧ first.toNat ≤ 0xF4)
    (middle : 0x80 ≤ second.toNat ∧ second.toNat ≤ 0xBF) (low : first.toNat = 0xF0 → 0x90 ≤ second.toNat)
    (next : 0x80 ≤ third.toNat ∧ third.toNat ≤ 0xBF) (tail : 0x80 ≤ fourth.toNat ∧ fourth.toNat ≤ 0xBF)
    (value : c.toNat = (first.toNat - 0xF0) * 0x40000 + (second.toNat - 0x80) * 0x1000 + (third.toNat - 0x80) * 0x40
      + (fourth.toNat - 0x80)) : utf8 c = [first, second, third, fourth] := by
  unfold utf8
  dsimp only
  rw [value, if_neg (by omega), if_neg (by omega), if_neg (by omega), ofNat_eq (by omega : _ = first.toNat),
    ofNat_eq (by omega : _ = second.toNat), ofNat_eq (by omega : _ = third.toNat), ofNat_eq (by omega : _ = fourth.toNat)]

/-- A character that is read stands for the bytes that are taken for it. -/
theorem leading_bytes {first : UInt8} {rest : Bytes} {c : Char} {extra : Nat}
    (found : leading first rest = some (c, extra)) : utf8 c = first :: rest.take extra := by
  unfold leading at found
  split at found
  next ascii =>
    have small : first.toNat < 0x80 := UInt8.lt_iff_toNat_lt.mp ascii
    obtain ⟨rfl, rfl⟩ := Prod.mk.inj (Option.some.inj found)
    unfold utf8
    dsimp only
    rw [toNat_ofNat (by omega), if_pos small, ofNat_eq rfl]
    rfl
  split at found
  next two =>
    simp only [Bool.and_eq_true, decide_eq_true_eq, UInt8.le_iff_toNat_le] at two
    have lead : 0xC2 ≤ first.toNat ∧ first.toNat ≤ 0xDF := two
    split at found
    next second rest =>
      obtain ⟨continues, found⟩ := Option.ite_none_right_eq_some.mp found
      have tail := isContinuation_range continues
      obtain ⟨rfl, rfl⟩ := Prod.mk.inj (Option.some.inj found)
      have valid : (first.toNat - 0xC0) * 0x40 + (second.toNat - 0x80) < 0xD800 := by omega
      exact utf8_two lead tail (toNat_ofNat (.inl valid))
    next => cases found
  split at found
  next three =>
    simp only [Bool.and_eq_true, decide_eq_true_eq, UInt8.le_iff_toNat_le] at three
    have lead : 0xE0 ≤ first.toNat ∧ first.toNat ≤ 0xEF := three
    split at found
    next second third rest =>
      obtain ⟨continues, found⟩ := Option.ite_none_right_eq_some.mp found
      simp only [Bool.and_eq_true, decide_eq_true_eq] at continues
      obtain ⟨⟨above, below⟩, continues⟩ := continues
      obtain ⟨middle, low, high⟩ := second_range (by decide) (by decide) above below
      have low : first.toNat = 0xE0 → 0xA0 ≤ second.toNat := low
      have high : first.toNat = 0xED → second.toNat ≤ 0x9F := high
      have tail := isContinuation_range continues
      obtain ⟨rfl, rfl⟩ := Prod.mk.inj (Option.some.inj found)
      have valid : (first.toNat - 0xE0) * 0x1000 + (second.toNat - 0x80) * 0x40 + (third.toNat - 0x80) < 0xD800 ∨
          0xDFFF < (first.toNat - 0xE0) * 0x1000 + (second.toNat - 0x80) * 0x40 + (third.toNat - 0x80) ∧
            (first.toNat - 0xE0) * 0x1000 + (second.toNat - 0x80) * 0x40 + (third.toNat - 0x80) < 0x110000 := by
        omega
      exact utf8_three lead middle low tail (toNat_ofNat valid)
    next => cases found
  split at found
  next four =>
    simp only [Bool.and_eq_true, decide_eq_true_eq, UInt8.le_iff_toNat_le] at four
    have lead : 0xF0 ≤ first.toNat ∧ first.toNat ≤ 0xF4 := four
    split at found
    next second third fourth rest =>
      obtain ⟨continues, found⟩ := Option.ite_none_right_eq_some.mp found
      simp only [Bool.and_eq_true, decide_eq_true_eq] at continues
      obtain ⟨⟨⟨above, below⟩, continues⟩, ends⟩ := continues
      obtain ⟨middle, low, high⟩ := second_range (by decide) (by decide) above below
      have low : first.toNat = 0xF0 → 0x90 ≤ second.toNat := low
      have high : first.toNat = 0xF4 → second.toNat ≤ 0x8F := high
      have next := isContinuation_range continues
      have tail := isContinuation_range ends
      obtain ⟨rfl, rfl⟩ := Prod.mk.inj (Option.some.inj found)
      have valid : 0xDFFF < (first.toNat - 0xF0) * 0x40000 + (second.toNat - 0x80) * 0x1000 + (third.toNat - 0x80) * 0x40
            + (fourth.toNat - 0x80) ∧
          (first.toNat - 0xF0) * 0x40000 + (second.toNat - 0x80) * 0x1000 + (third.toNat - 0x80) * 0x40
            + (fourth.toNat - 0x80) < 0x110000 := by
        omega
      exact utf8_four lead middle low next tail (toNat_ofNat (.inr valid))
    next => cases found
  · cases found

theorem encode_cons (glyph : Glyph) (glyphs : List Glyph) : encode (glyph :: glyphs) = glyph.bytes ++ encode glyphs :=
  List.flatMap_cons

theorem encode_append (first second : List Glyph) : encode (first ++ second) = encode first ++ encode second :=
  List.flatMap_append

theorem length_encode_append (first second : List Glyph) :
    (encode (first ++ second)).length = (encode first).length + (encode second).length := by
  rw [encode_append, List.length_append]

private theorem encode_decodeAfter (skip : Nat) (text : Bytes) : encode (decodeAfter skip text) = text.drop skip := by
  induction text generalizing skip with
  | nil =>
    rw [decodeAfter, List.drop_nil]
    rfl
  | cons first rest ih =>
    cases skip with
    | succ skip => exact ih skip
    | zero =>
      rw [decodeAfter]
      cases found : leading first rest with
      | none =>
        rw [encode_cons, ih 0]
        rfl
      | some pair =>
        obtain ⟨c, extra⟩ := pair
        rw [encode_cons, ih extra]
        change utf8 c ++ rest.drop extra = first :: rest
        rw [leading_bytes found, List.cons_append, List.take_append_drop]

/-- Decoding loses nothing. -/
theorem encode_decode (text : Bytes) : encode (decode text) = text :=
  encode_decodeAfter 0 text

/-- A byte that belongs to no character is not below `0x80`. -/
theorem decode_stray {text : Bytes} {byte : UInt8} (member : .stray byte ∈ decode text) : 0x80 ≤ byte.toNat := by
  have after : ∀ (text : Bytes) (skip : Nat), .stray byte ∈ decodeAfter skip text → 0x80 ≤ byte.toNat := by
    intro text
    induction text with
    | nil => exact fun _ none => nomatch none
    | cons first rest ih =>
      intro skip inside
      cases skip with
      | succ skip => exact ih skip inside
      | zero =>
        rw [decodeAfter] at inside
        split at inside
        next c extra _ => exact ih extra (List.mem_of_ne_of_mem Glyph.noConfusion inside)
        next none =>
          rcases List.mem_cons.mp inside with same | later
          · cases same
            refine Nat.le_of_not_lt fun low => ?_
            unfold leading at none
            rw [if_pos (UInt8.lt_iff_toNat_lt.mpr low)] at none
            cases none
          · exact ih 0 later
  exact after text 0 member

theorem bytes_ne_nil (glyph : Glyph) : glyph.bytes ≠ [] := by
  cases glyph with
  | stray byte => exact List.cons_ne_nil _ _
  | char c =>
    unfold bytes utf8
    dsimp only
    split
    · exact List.cons_ne_nil _ _
    split
    · exact List.cons_ne_nil _ _
    split <;> exact List.cons_ne_nil _ _

theorem length_encode_pos {glyphs : List Glyph} (some : glyphs ≠ []) : 0 < (encode glyphs).length := by
  cases glyphs with
  | nil => exact absurd rfl some
  | cons glyph glyphs =>
    have taken := List.length_pos_iff.mpr (bytes_ne_nil glyph)
    rw [encode_cons, List.length_append]
    omega

end Treewalk.Glyph
