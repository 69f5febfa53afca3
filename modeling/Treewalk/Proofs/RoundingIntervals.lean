import Mathlib.Tactic.Linarith
import Treewalk.Proofs.DecimalValues
import Treewalk.Tree.Printer

/-! The text of a float tells which float it is. As a decimal it lies in the interval of the numbers that
round to the float, and the intervals of different floats have nothing in common. -/

namespace Treewalk.Decimal

namespace Binary

structure Canonical (x : Binary) : Prop where
  small : x.mantissa < 2 ^ 53
  least : -1074 ≤ x.exponent
  full : -1074 < x.exponent → 2 ^ 52 ≤ x.mantissa
  narrow : x.narrowBelow = true ↔ x.mantissa = 2 ^ 52 ∧ -1074 < x.exponent

/-- Where the interval of a magnitude starts, in quarters of the unit in the last place. -/
def lowEnd (x : Binary) : Nat :=
  if x.narrowBelow then 4 * x.mantissa - 1 else 4 * x.mantissa - 2

def highEnd (x : Binary) : Nat :=
  4 * x.mantissa + 2

def quarter (x : Binary) : ℚ :=
  2 ^ (x.exponent - 2)

theorem quarter_pos (x : Binary) : 0 < x.quarter :=
  zpow_pos (by norm_num) _

/-- The number rounds to the magnitude. An end of the interval does so only if the mantissa is even. -/
structure Rounds (x : Binary) (value : ℚ) : Prop where
  low : x.lowEnd * x.quarter ≤ value
  high : value ≤ x.highEnd * x.quarter
  inside : x.mantissa % 2 = 1 → x.lowEnd * x.quarter ≠ value ∧ value ≠ x.highEnd * x.quarter

private theorem pow_toNat (base : ℚ) (positive : 0 < base) (power : Int) :
    base ^ power.toNat = base ^ power * base ^ (-power).toNat := by
  have split : (power.toNat : Int) = power + ((-power).toNat : Int) := by omega
  rw [← zpow_natCast, ← zpow_natCast, ← zpow_add₀ (ne_of_gt positive), split]

/-- The comparison is the one of the numbers. -/
private theorem compareScaled_sides (x : Binary) (n : Nat) (exponent : Int) (quarters : Nat) : ∃ scale : ℚ, 0 < scale ∧
    ((n * Nat.pow 10 exponent.toNat * Nat.pow 2 (-(x.exponent - 2)).toNat : Nat) : ℚ) = n * 10 ^ exponent * scale ∧
    ((quarters * Nat.pow 2 (x.exponent - 2).toNat * Nat.pow 10 (-exponent).toNat : Nat) : ℚ) = quarters * x.quarter * scale := by
  refine ⟨10 ^ (-exponent).toNat * 2 ^ (-(x.exponent - 2)).toNat, by positivity, ?_, ?_⟩
  · push_cast [Nat.pow_eq]
    rw [pow_toNat 10 (by norm_num)]
    ring
  · push_cast [Nat.pow_eq]
    rw [pow_toNat 2 (by norm_num), quarter]
    ring

private theorem compareScaled_order {x : Binary} {n : Nat} {exponent : Int} {quarters : Nat} {order : Ordering}
    (found : x.compareScaled n exponent quarters = order) :
    match order with
    | .lt => (n : ℚ) * 10 ^ exponent < quarters * x.quarter
    | .eq => (n : ℚ) * 10 ^ exponent = quarters * x.quarter
    | .gt => quarters * x.quarter < (n : ℚ) * 10 ^ exponent := by
  obtain ⟨scale, positive, left, right⟩ := compareScaled_sides x n exponent quarters
  unfold compareScaled at found
  cases order with
  | lt =>
    rw [Nat.compare_eq_lt, ← Nat.cast_lt (α := ℚ), left, right] at found
    exact lt_of_mul_lt_mul_right found positive.le
  | eq =>
    rw [Nat.compare_eq_eq, ← Nat.cast_inj (R := ℚ), left, right] at found
    exact mul_right_cancel₀ positive.ne' found
  | gt =>
    rw [Nat.compare_eq_gt, ← Nat.cast_lt (α := ℚ), left, right] at found
    exact lt_of_mul_lt_mul_right found positive.le

/-- What reads back as a magnitude rounds to it. -/
theorem readsBack_rounds {x : Binary} {n : Nat} {exponent : Int} (reads : x.readsBack n exponent = true) :
    x.Rounds (n * 10 ^ exponent) := by
  obtain ⟨low, high⟩ := Bool.and_eq_true_iff.mp reads
  simp only [Bool.or_eq_true, Bool.and_eq_true, beq_iff_eq] at low high
  have above : (x.lowEnd : ℚ) * x.quarter < n * 10 ^ exponent ∨
      x.mantissa % 2 = 0 ∧ (n : ℚ) * 10 ^ exponent = x.lowEnd * x.quarter :=
    low.imp compareScaled_order fun ⟨even, same⟩ => ⟨even, compareScaled_order same⟩
  have below : (n : ℚ) * 10 ^ exponent < x.highEnd * x.quarter ∨
      x.mantissa % 2 = 0 ∧ (n : ℚ) * 10 ^ exponent = x.highEnd * x.quarter :=
    high.imp compareScaled_order fun ⟨even, same⟩ => ⟨even, compareScaled_order same⟩
  refine ⟨?_, ?_, fun odd => ⟨?_, ?_⟩⟩
  · exact above.elim le_of_lt fun same => same.2.ge
  · exact below.elim le_of_lt fun same => same.2.le
  · rcases above with less | ⟨even, _⟩
    · exact less.ne
    · omega
  · rcases below with less | ⟨even, _⟩
    · exact less.ne
    · omega

theorem onGrid_readsBack {x : Binary} {n : Nat} {exponent : Int} (found : x.onGrid exponent = some n) :
    x.readsBack n exponent = true := by
  unfold onGrid at found
  dsimp only at found
  split at found
  next => cases found
  next lower _ =>
    cases found
    exact lower
  next _ upper =>
    cases found
    exact upper
  next lower upper =>
    split at found
    · cases found
      exact lower
    · cases found
      exact upper
    · cases found
      split
      · exact lower
      · exact upper

theorem lowEnd_le (x : Binary) : x.lowEnd ≤ 4 * x.mantissa ∧ 4 * x.mantissa ≤ x.lowEnd + 2 := by
  unfold lowEnd
  split <;> omega

/-- Every magnitude rounds to itself. -/
theorem rounds_self (x : Binary) : x.Rounds (x.mantissa * 2 ^ x.exponent) := by
  have unit : (2 : ℚ) ^ x.exponent = 4 * x.quarter := by
    rw [quarter, zpow_sub₀ (by norm_num)]
    norm_num
    ring
  have positive := x.quarter_pos
  have low : (x.lowEnd : ℚ) ≤ 4 * x.mantissa := by exact_mod_cast x.lowEnd_le.1
  have high : (x.highEnd : ℚ) = 4 * x.mantissa + 2 := by
    unfold highEnd
    push_cast
    rfl
  rw [unit]
  refine ⟨by nlinarith, by nlinarith, fun odd => ⟨?_, by nlinarith⟩⟩
  have lower : (x.lowEnd : ℚ) < 4 * x.mantissa := by
    have less : x.lowEnd < 4 * x.mantissa := by
      unfold lowEnd
      split <;> omega
    exact_mod_cast less
  nlinarith

theorem exactDigits_value (x : Binary) : x.exactDigits.value = x.mantissa * 2 ^ x.exponent := by
  have ten : (10 : ℚ) ^ (-x.exponent).toNat = 2 ^ (-x.exponent).toNat * 5 ^ (-x.exponent).toNat := by
    rw [← mul_pow]
    norm_num
  unfold exactDigits numerator
  rw [value_ofScaled, zpow_neg, zpow_natCast]
  push_cast [Nat.pow_eq]
  rw [pow_toNat 2 (by norm_num), ten]
  field_simp

/-- The digits that are shown for a magnitude round to it. -/
theorem shortest_rounds (x : Binary) : x.Rounds x.shortest.value := by
  unfold shortest
  split
  next zero => simpa [Digits.value, natValue, zero] using x.rounds_self
  next =>
    dsimp only
    cases found : (List.range 17).findSome? _ with
    | none =>
      rw [Option.getD_none, exactDigits_value]
      exact x.rounds_self
    | some digits =>
      obtain ⟨extra, _, some⟩ := List.exists_of_findSome?_eq_some found
      obtain ⟨n, onGrid, rfl⟩ := Option.map_eq_some_iff.mp some
      rw [Option.getD_some, value_ofScaled]
      exact readsBack_rounds (onGrid_readsBack onGrid)

section Unique

variable {x y : Binary} {value : ℚ}

/-- What rounds to a magnitude does not reach one with a greater exponent. -/
private theorem Rounds.exponent_le (canonical : x.Canonical) (other : y.Canonical) (one : x.Rounds value)
    (two : y.Rounds value) : y.exponent ≤ x.exponent := by
  by_contra less
  have wider : 2 * x.quarter ≤ y.quarter := by
    have double : 2 * x.quarter = 2 ^ (x.exponent - 2 + 1) := by
      rw [zpow_add_one₀ (by norm_num), quarter, mul_comm]
    rw [double, quarter]
    exact zpow_le_zpow_right₀ (by norm_num) (by omega)
  have full : 2 ^ 54 - 1 ≤ y.lowEnd := by
    have least := other.full (by have := canonical.least; omega)
    have narrow := other.narrow
    unfold lowEnd
    split
    next => omega
    next wide =>
      have above : y.mantissa ≠ 2 ^ 52 := fun exact => wide (narrow.mpr ⟨exact, by have := canonical.least; omega⟩)
      omega
  -- The end of one interval may be the start of the other, but then the smaller mantissa is odd.
  have start : ((2 ^ 55 - 2 : Nat) : ℚ) * x.quarter ≤ value := by
    have low : ((2 ^ 54 - 1 : Nat) : ℚ) ≤ y.lowEnd := by exact_mod_cast full
    have positive := x.quarter_pos
    calc ((2 ^ 55 - 2 : Nat) : ℚ) * x.quarter = ((2 ^ 54 - 1 : Nat) : ℚ) * (2 * x.quarter) := by norm_num; ring
      _ ≤ y.lowEnd * y.quarter := by gcongr
      _ ≤ value := two.low
  have ends : x.highEnd = 2 ^ 55 - 2 := by
    have small := canonical.small
    have reached : 2 ^ 55 - 2 ≤ x.highEnd := by
      exact_mod_cast le_of_mul_le_mul_right (start.trans one.high) x.quarter_pos
    unfold highEnd at reached ⊢
    omega
  have odd : x.mantissa % 2 = 1 := by
    unfold highEnd at ends
    omega
  refine (one.inside odd).2 (le_antisymm one.high ?_)
  rw [ends]
  exact start

/-- With one exponent the greater mantissa is further up. -/
private theorem Rounds.mantissa_le (same : x.exponent = y.exponent) (one : x.Rounds value) (two : y.Rounds value) :
    x.mantissa ≤ y.mantissa := by
  by_contra more
  have unit : y.quarter = x.quarter := by rw [quarter, quarter, same]
  have positive := x.quarter_pos
  have below : value ≤ y.highEnd * x.quarter := unit ▸ two.high
  have meets : x.lowEnd ≤ y.highEnd := by
    have cast : (x.lowEnd : ℚ) ≤ y.highEnd := le_of_mul_le_mul_right (one.low.trans below) positive
    exact_mod_cast cast
  have reach := x.lowEnd_le
  have ends : x.lowEnd = y.highEnd ∧ x.mantissa = y.mantissa + 1 := by
    unfold highEnd at meets ⊢
    omega
  have touches : value = x.lowEnd * x.quarter := le_antisymm (ends.1 ▸ below) one.low
  rcases Nat.mod_two_eq_zero_or_one x.mantissa with even | odd
  · have odd : y.mantissa % 2 = 1 := by omega
    refine (two.inside odd).2 ?_
    rw [touches, unit, ends.1]
  · exact (one.inside odd).1 touches.symm

/-- No number rounds to two magnitudes. -/
theorem Rounds.unique (canonical : x.Canonical) (other : y.Canonical) (one : x.Rounds value) (two : y.Rounds value) : x = y := by
  have exponents : x.exponent = y.exponent :=
    Int.le_antisymm (two.exponent_le other canonical one) (one.exponent_le canonical other two)
  have mantissas : x.mantissa = y.mantissa :=
    Nat.le_antisymm (one.mantissa_le exponents two) (two.mantissa_le exponents.symm one)
  have narrow : x.narrowBelow = y.narrowBelow := by
    rw [Bool.eq_iff_iff, canonical.narrow, other.narrow, exponents, mantissas]
  cases x
  cases y
  simp_all

end Unique
end Binary

namespace Reading

private theorem fields (bits : UInt64) :
    (bits >>> 63).toNat = bits.toNat / 2 ^ 63 ∧ ((bits >>> 52) &&& 0x7FF).toNat = bits.toNat / 2 ^ 52 % 2 ^ 11 ∧
      (bits &&& 0xFFFFFFFFFFFFF).toNat = bits.toNat % 2 ^ 52 := by
  refine ⟨?_, ?_, ?_⟩
  · rw [UInt64.toNat_shiftRight, Nat.shiftRight_eq_div_pow]
    rfl
  · rw [UInt64.toNat_and, UInt64.toNat_shiftRight, Nat.shiftRight_eq_div_pow]
    exact Nat.and_two_pow_sub_one_eq_mod _ 11
  · rw [UInt64.toNat_and]
    exact Nat.and_two_pow_sub_one_eq_mod _ 52

private theorem canonical_subnormal {fraction : Nat} (small : fraction < 2 ^ 52) : Binary.Canonical ⟨fraction, -1074, false⟩ where
  small := by
    dsimp only
    omega
  least := Int.le_refl _
  full impossible := absurd impossible (Int.lt_irrefl _)
  narrow := by simp

private theorem canonical_normal {exponent fraction : Nat} (small : fraction < 2 ^ 52) (some : 0 < exponent) :
    Binary.Canonical ⟨0x10000000000000 + fraction, (exponent : Int) - 1075, fraction == 0 && exponent > 1⟩ where
  small := by
    dsimp only
    omega
  least := by
    dsimp only
    omega
  full _ := by
    dsimp only
    omega
  narrow := by
    simp only [Bool.and_eq_true, beq_iff_eq, decide_eq_true_eq]
    omega

/-- What the bits of a float say when it is finite. -/
theorem ofBits_finite {bits : UInt64} {negative : Bool} {x : Binary} (reads : ofBits bits = .finite negative x) :
    x.Canonical ∧ bits.toNat = (if negative then 2 ^ 63 else 0) +
      if x.mantissa < 2 ^ 52 then x.mantissa else (x.exponent + 1075).toNat * 2 ^ 52 + (x.mantissa - 2 ^ 52) := by
  obtain ⟨sign, exponent, fraction⟩ := fields bits
  have bound := bits.toNat_lt
  have negated : (bits >>> 63 == 1) = decide (bits.toNat / 2 ^ 63 = 1) := by
    rw [Bool.eq_iff_iff, beq_iff_eq, decide_eq_true_iff, ← UInt64.toNat_inj, sign]
    rfl
  have parts : bits.toNat = bits.toNat / 2 ^ 63 * 2 ^ 63 + bits.toNat / 2 ^ 52 % 2 ^ 11 * 2 ^ 52 + bits.toNat % 2 ^ 52 := by
    omega
  have signs : bits.toNat / 2 ^ 63 < 2 := by omega
  have exponents : bits.toNat / 2 ^ 52 % 2 ^ 11 < 2 ^ 11 := Nat.mod_lt _ (by decide)
  have fractions : bits.toNat % 2 ^ 52 < 2 ^ 52 := Nat.mod_lt _ (by decide)
  unfold ofBits at reads
  dsimp only at reads
  rw [negated, exponent, fraction] at reads
  generalize bits.toNat / 2 ^ 63 = sign at reads parts signs
  generalize bits.toNat / 2 ^ 52 % 2 ^ 11 = exponent at reads parts exponents
  generalize bits.toNat % 2 ^ 52 = fraction at reads parts fractions
  have signed : (if decide (sign = 1) = true then 2 ^ 63 else 0) = sign * 2 ^ 63 := by
    rcases (by omega : sign = 0 ∨ sign = 1) with rfl | rfl <;> rfl
  rw [parts]
  split at reads
  · split at reads <;> cases reads
  next finite =>
    have most : exponent ≠ 0x7FF := by simpa using finite
    split at reads
    next subnormal =>
      have zero : exponent = 0 := by simpa using subnormal
      cases reads
      refine ⟨canonical_subnormal fractions, ?_⟩
      rw [signed]
      dsimp only
      rw [if_pos fractions, zero]
      omega
    next normal =>
      have some : exponent ≠ 0 := by simpa using normal
      cases reads
      refine ⟨canonical_normal fractions (by omega), ?_⟩
      rw [signed]
      dsimp only
      rw [if_neg (by omega)]
      omega

theorem ofBits_injective {one two : UInt64} {negative : Bool} {x : Binary} (first : ofBits one = .finite negative x)
    (second : ofBits two = .finite negative x) : one = two :=
  UInt64.toNat_inj.mp ((ofBits_finite first).2.trans (ofBits_finite second).2.symm)

end Reading

theorem Binary.shortest_lt (x : Binary) : ∀ digit ∈ x.shortest.digits, digit < 10 := by
  unfold shortest
  split
  · simp
  · dsimp only
    cases found : (List.range 17).findSome? _ with
    | none => exact ofScaled_lt _ _
    | some digits =>
      obtain ⟨extra, _, some⟩ := List.exists_of_findSome?_eq_some found
      obtain ⟨n, _, rfl⟩ := Option.map_eq_some_iff.mp some
      exact ofScaled_lt _ _

end Treewalk.Decimal

namespace Treewalk
open Decimal

def IsFinite (x : Float) : Prop :=
  ∃ negative magnitude, Reading.ofFloat x = .finite negative magnitude

theorem numberLiteralText_finite {x : Float} {negative : Bool} {magnitude : Binary}
    (reads : Reading.ofFloat x = .finite negative magnitude) :
    numberLiteralText x = signed negative magnitude.shortest.positional := by
  unfold numberLiteralText
  rw [reads]

/-- The sign is the first byte of a text or is not there. -/
private theorem signed_injective {one two : Bool} {first second : Bytes} {value other : ℚ} (shown : Shows first value)
    (also : Shows second other) (same : signed one first = signed two second) : one = two ∧ first = second := by
  obtain ⟨byte, rest, rfl, least, _⟩ := shown.starts
  obtain ⟨start, behind, rfl, lowest, _⟩ := also.starts
  have sign : utf8 '-' = [0x2D] := rfl
  cases one <;> cases two <;> simp only [signed, sign, if_true, if_false, Bool.false_eq_true, List.cons_append, List.nil_append,
    List.cons.injEq] at same
  · exact ⟨rfl, by rw [same.1, same.2]⟩
  · rw [same.1] at least
    exact absurd least (by decide)
  · rw [← same.1] at lowest
    exact absurd lowest (by decide)
  · exact ⟨rfl, by rw [same.2.1, same.2.2]⟩

/-- The text of a float tells which float it is. -/
theorem numberLiteralText_injective {x y : Float} (finite : IsFinite x) (other : IsFinite y)
    (same : numberLiteralText x = numberLiteralText y) : x = y := by
  obtain ⟨negative, magnitude, reads⟩ := finite
  obtain ⟨sign, second, readsOther⟩ := other
  have shown := positional_shows magnitude.shortest_lt
  have shownOther := positional_shows second.shortest_lt
  rw [numberLiteralText_finite reads, numberLiteralText_finite readsOther] at same
  obtain ⟨rfl, text⟩ := signed_injective shown shownOther same
  have value : magnitude.shortest.value = second.shortest.value := by
    rw [← shown.value, ← shownOther.value, text]
  obtain rfl : magnitude = second := Binary.Rounds.unique (Reading.ofBits_finite reads).1 (Reading.ofBits_finite readsOther).1
    magnitude.shortest_rounds (value ▸ second.shortest_rounds)
  have bits : x.toBits = y.toBits := Reading.ofBits_injective reads readsOther
  obtain ⟨⟨held, _⟩⟩ := x
  obtain ⟨⟨also, _⟩⟩ := y
  obtain rfl : held = also := bits
  rfl

end Treewalk
