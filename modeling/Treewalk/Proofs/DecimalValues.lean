import Mathlib.Algebra.Order.Field.Power
import Mathlib.Algebra.Order.Field.Rat
import Mathlib.Data.List.TakeWhile
import Mathlib.Tactic.FieldSimp
import Mathlib.Tactic.Ring
import Treewalk.Decimal.Layout

/-! What decimals stand for. Digits with a point are a rational number, and laid out positionally they can be
read back as the same number. -/

namespace Treewalk.Decimal

def natValue (digits : List Nat) : Nat :=
  digits.foldl (fun n digit => 10 * n + digit) 0

private theorem foldl_natValue (digits : List Nat) (n : Nat) :
    digits.foldl (fun n digit => 10 * n + digit) n = n * 10 ^ digits.length + natValue digits := by
  unfold natValue
  induction digits generalizing n with
  | nil => simp
  | cons digit digits ih =>
    rw [List.foldl_cons, List.foldl_cons, ih, ih (10 * 0 + digit), List.length_cons, Nat.pow_succ]
    ring

theorem natValue_append (first second : List Nat) :
    natValue (first ++ second) = natValue first * 10 ^ second.length + natValue second := by
  rw [natValue, List.foldl_append]
  exact foldl_natValue second _

theorem natValue_zeros (count : Nat) : natValue (List.replicate count 0) = 0 := by
  induction count with
  | zero => rfl
  | succ count ih => exact ih

theorem natValue_digitsOf (n : Nat) : natValue (digitsOf n) = n := by
  unfold digitsOf
  split
  next zero =>
    rw [zero]
    rfl
  next =>
    rw [natValue, List.foldl_map]
    exact Nat.ofDigitChars_toDigits (by decide) (by decide)

theorem dropTrailingZeros_append (digits : List Nat) :
    ∃ count, digits = dropTrailingZeros digits ++ List.replicate count 0 := by
  refine ⟨(digits.reverse.takeWhile (· == 0)).length, ?_⟩
  have zeros : digits.reverse.takeWhile (· == 0) = List.replicate (digits.reverse.takeWhile (· == 0)).length 0 :=
    List.eq_replicate_iff.mpr ⟨rfl, fun digit member => by simpa using List.mem_takeWhile_imp member⟩
  have parts := List.takeWhile_append_dropWhile (p := (· == 0)) (l := digits.reverse)
  rw [zeros] at parts
  have back := congrArg List.reverse parts
  rw [List.reverse_append, List.reverse_replicate, List.reverse_reverse] at back
  exact back.symm

theorem digitsOf_lt (n : Nat) : ∀ digit ∈ digitsOf n, digit < 10 := by
  intro digit inside
  unfold digitsOf at inside
  split at inside
  · cases inside
  · obtain ⟨c, member, rfl⟩ := List.mem_map.mp inside
    have digit := Nat.isDigit_of_mem_toDigits (by decide) (by decide) member
    simp only [Char.isDigit, Bool.and_eq_true, decide_eq_true_eq, UInt32.le_iff_toNat_le] at digit
    have most : c.toNat ≤ 0x39 := digit.2
    omega

theorem ofScaled_lt (n : Nat) (exponent : Int) : ∀ digit ∈ (Digits.ofScaled n exponent).digits, digit < 10 := by
  intro digit inside
  refine digitsOf_lt n digit ?_
  obtain ⟨count, parts⟩ := dropTrailingZeros_append (digitsOf n)
  rw [parts]
  exact List.mem_append_left _ inside

def Digits.value (d : Digits) : ℚ :=
  natValue d.digits * 10 ^ (d.point - d.digits.length)

theorem value_ofScaled (n : Nat) (exponent : Int) : (Digits.ofScaled n exponent).value = n * 10 ^ exponent := by
  obtain ⟨count, parts⟩ := dropTrailingZeros_append (digitsOf n)
  have whole : n = natValue (dropTrailingZeros (digitsOf n)) * 10 ^ count := by
    conv_lhs => rw [← natValue_digitsOf n, parts, natValue_append, natValue_zeros, List.length_replicate, Nat.add_zero]
  have length : (digitsOf n).length = (dropTrailingZeros (digitsOf n)).length + count := by
    conv_lhs => rw [parts, List.length_append, List.length_replicate]
  have ten : (10 : ℚ) ≠ 0 := by norm_num
  have shift : ((digitsOf n).length : Int) + exponent - (dropTrailingZeros (digitsOf n)).length = count + exponent := by
    omega
  unfold Digits.value Digits.ofScaled
  dsimp only
  rw [shift, zpow_add₀ ten, zpow_natCast, ← mul_assoc]
  conv_rhs => rw [whole]
  push_cast
  rfl

def digitAt (byte : UInt8) : Nat :=
  byte.toNat - 0x30

def textValue (text : Bytes) : ℚ :=
  let whole := text.takeWhile (· != 0x2E)
  let fraction := (text.dropWhile (· != 0x2E)).drop 1
  natValue ((whole ++ fraction).map digitAt) / 10 ^ fraction.length

def AllDigits (text : Bytes) : Prop :=
  ∀ byte ∈ text, 0x30 ≤ byte ∧ byte ≤ 0x39

theorem AllDigits.append {first second : Bytes} (one : AllDigits first) (two : AllDigits second) : AllDigits (first ++ second) :=
  fun byte member => (List.mem_append.mp member).elim (one byte) (two byte)

theorem AllDigits.pointless {text : Bytes} (digits : AllDigits text) : ∀ byte ∈ text, (byte != 0x2E) = true := by
  intro byte member
  have least := (digits byte member).1
  rw [bne_iff_ne]
  rintro rfl
  exact absurd least (by decide)

theorem textValue_whole {whole : Bytes} (digits : AllDigits whole) : textValue whole = natValue (whole.map digitAt) := by
  unfold textValue
  dsimp only
  rw [List.takeWhile_eq_self_iff.mpr digits.pointless, List.dropWhile_eq_nil_iff.mpr digits.pointless]
  simp

theorem textValue_fraction {whole : Bytes} (digits : AllDigits whole) (fraction : Bytes) :
    textValue (whole ++ 0x2E :: fraction) = natValue ((whole ++ fraction).map digitAt) / 10 ^ fraction.length := by
  unfold textValue
  dsimp only
  rw [List.takeWhile_append_of_pos digits.pointless, List.dropWhile_append_of_pos digits.pointless]
  simp

section Layout

variable {digits : List Nat}

theorem digitText_allDigits (small : ∀ digit ∈ digits, digit < 10) : AllDigits (Digits.digitText digits) := by
  intro byte member
  obtain ⟨digit, inside, rfl⟩ := List.mem_map.mp member
  have bound := small digit inside
  rw [UInt8.le_iff_toNat_le, UInt8.le_iff_toNat_le, UInt8.toNat_ofNat']
  change 0x30 ≤ _ ∧ _ ≤ 0x39
  omega

theorem zeros_allDigits (count : Int) : AllDigits (Digits.zeros count) := by
  intro byte member
  rw [List.eq_of_mem_replicate member]
  decide

theorem digitText_digits (small : ∀ digit ∈ digits, digit < 10) : (Digits.digitText digits).map digitAt = digits := by
  unfold Digits.digitText
  rw [List.map_map]
  refine (List.map_congr_left fun digit inside => ?_).trans (List.map_id _)
  have bound := small digit inside
  change (UInt8.ofNat (0x30 + digit)).toNat - 0x30 = digit
  rw [UInt8.toNat_ofNat']
  omega

theorem zeros_digits (count : Int) : (Digits.zeros count).map digitAt = List.replicate count.toNat 0 := by
  simp [Digits.zeros, digitAt]

structure Shows (text : Bytes) (value : ℚ) : Prop where
  starts : ∃ byte rest, text = byte :: rest ∧ 0x30 ≤ byte ∧ byte ≤ 0x39
  bytes : ∀ byte ∈ text, byte = 0x2E ∨ 0x30 ≤ byte ∧ byte ≤ 0x39
  value : textValue text = value

private theorem starts_append {whole : Bytes} (all : AllDigits whole) (some : whole ≠ []) (behind : Bytes) :
    ∃ byte rest, whole ++ behind = byte :: rest ∧ 0x30 ≤ byte ∧ byte ≤ 0x39 := by
  cases whole with
  | nil => exact absurd rfl some
  | cons byte rest => exact ⟨byte, rest ++ behind, rfl, all byte List.mem_cons_self⟩

theorem shows_whole {whole : Bytes} (all : AllDigits whole) (some : whole ≠ []) :
    Shows whole (natValue (whole.map digitAt)) where
  starts := by simpa using starts_append all some []
  bytes byte member := .inr (all byte member)
  value := textValue_whole all

theorem shows_fraction {whole fraction : Bytes} (all : AllDigits whole) (some : whole ≠ []) (behind : AllDigits fraction) :
    Shows (whole ++ 0x2E :: fraction) (natValue ((whole ++ fraction).map digitAt) / 10 ^ fraction.length) where
  starts := starts_append all some _
  bytes byte member := by
    rcases List.mem_append.mp member with before | after
    · exact .inr (all byte before)
    · exact (List.mem_cons.mp after).imp id (behind byte)
  value := textValue_fraction all fraction

private theorem zero_allDigits : AllDigits [0x30] := by
  intro byte member
  rw [List.mem_singleton.mp member]
  decide

private theorem shift_left (n count : Nat) (power : Int) (same : power = -count) : (n : ℚ) / 10 ^ count = n * 10 ^ power := by
  rw [same, zpow_neg, zpow_natCast, div_eq_mul_inv]

/-- No digit stands before the point. -/
private theorem shows_behind (small : ∀ digit ∈ digits, digit < 10) {point : Int} (early : point ≤ 0) :
    Shows (0x30 :: 0x2E :: (Digits.zeros (-point) ++ Digits.digitText digits)) (Digits.value ⟨digits, point⟩) := by
  have shown := shows_fraction zero_allDigits (List.cons_ne_nil _ _)
    ((zeros_allDigits (-point)).append (digitText_allDigits small))
  have value : natValue (([0x30] ++ (Digits.zeros (-point) ++ Digits.digitText digits)).map digitAt) = natValue digits := by
    rw [List.map_append, List.map_append, zeros_digits, digitText_digits small, natValue_append, natValue_append,
      natValue_zeros]
    simp [natValue, digitAt]
  have length : point - digits.length = -((Digits.zeros (-point) ++ Digits.digitText digits).length : Nat) := by
    simp [Digits.zeros, Digits.digitText]
    omega
  rw [value, shift_left _ _ _ length] at shown
  exact shown

/-- All digits stand before the point. -/
private theorem shows_before (small : ∀ digit ∈ digits, digit < 10) {places : Nat} (enough : digits.length ≤ places)
    (some : 0 < places) :
    Shows (Digits.digitText digits ++ Digits.zeros (places - digits.length)) (Digits.value ⟨digits, places⟩) := by
  have filled : Digits.digitText digits ++ Digits.zeros (places - digits.length) ≠ [] := by
    intro none
    have length := congrArg List.length none
    simp only [Digits.zeros, Digits.digitText, List.length_append, List.length_map, List.length_replicate,
      List.length_nil] at length
    omega
  have shown := shows_whole ((digitText_allDigits small).append (zeros_allDigits (places - digits.length))) filled
  have power : (places : Int) - digits.length = ((places - digits.length : Nat) : Int) := by omega
  have count : ((places : Int) - digits.length).toNat = places - digits.length := by omega
  rw [List.map_append, zeros_digits, digitText_digits small, natValue_append, natValue_zeros, List.length_replicate,
    count] at shown
  unfold Digits.value
  dsimp only
  rw [power, zpow_natCast]
  exact_mod_cast shown

/-- The point stands among the digits. -/
private theorem shows_among (small : ∀ digit ∈ digits, digit < 10) {places : Nat} (few : places < digits.length)
    (some : 0 < places) :
    Shows (Digits.digitText (digits.take places) ++ 0x2E :: Digits.digitText (digits.drop places))
      (Digits.value ⟨digits, places⟩) := by
  have taken : ∀ digit ∈ digits.take places, digit < 10 := fun digit member => small digit (List.mem_of_mem_take member)
  have left : ∀ digit ∈ digits.drop places, digit < 10 := fun digit member => small digit (List.mem_of_mem_drop member)
  have filled : Digits.digitText (digits.take places) ≠ [] := by
    intro none
    have length := congrArg List.length none
    simp only [Digits.digitText, List.length_map, List.length_take, List.length_nil] at length
    omega
  have shown := shows_fraction (digitText_allDigits taken) filled (digitText_allDigits left)
  have length : (places : Int) - digits.length = -((Digits.digitText (digits.drop places)).length : Nat) := by
    simp [Digits.digitText]
    omega
  rw [List.map_append, digitText_digits taken, digitText_digits left, List.take_append_drop, shift_left _ _ _ length] at shown
  exact shown

/-- Digits that are laid out positionally show what they stand for. -/
theorem positional_shows {d : Digits} (small : ∀ digit ∈ d.digits, digit < 10) : Shows d.positional d.value := by
  obtain ⟨digits, point⟩ := d
  unfold Digits.positional
  dsimp only
  by_cases early : point ≤ 0
  · rw [if_pos early, Int.toNat_of_nonpos early, List.drop_zero]
    by_cases none : digits = []
    · subst none
      simpa [Digits.value, natValue, digitAt] using shows_whole zero_allDigits (List.cons_ne_nil _ _)
    · rw [if_neg (by simpa using none)]
      exact shows_behind small early
  · rw [if_neg early]
    obtain ⟨places, rfl⟩ := Int.eq_ofNat_of_zero_le (by omega : 0 ≤ point)
    have some : 0 < places := by omega
    rw [Int.toNat_natCast]
    by_cases enough : digits.length ≤ places
    · rw [List.take_of_length_le enough, List.drop_eq_nil_of_le enough]
      simpa using shows_before small enough some
    · have few : places < digits.length := Nat.lt_of_not_le enough
      have taken : (digits.take places).length = places := List.length_take_of_le (Nat.le_of_lt few)
      have nonempty : (digits.drop places).isEmpty = false := by
        simpa using few
      rw [taken, nonempty]
      simpa [Digits.zeros, utf8] using shows_among small few some

end Layout

end Treewalk.Decimal
