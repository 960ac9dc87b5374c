import Mathlib
import Intake.Decimal

/-! Range of the nearest floats. The float next to a fraction is finite exactly when the fraction is
below the middle between the largest float and the power of two behind it; and so for decimals, the
shortcuts for large and small exponents included. A sign changes nothing about it. -/
namespace Intake.Decimal
open Float.Model (Format UnpackedFloat)
open Float.Model.UnpackedFloat (unpackExponent unpackExponent_def
  unpackExponent_packComponents pack_unpack packedInfinity packedZero)

section Bits

abbrev exponentOf (b : BitVec 64) : BitVec 11 := @unpackExponent Format.binary64 b

theorem finiteExponent (b : BitVec 64) :
    (UnpackedFloat.unpack Format.binary64 b).isFinite = true ↔ exponentOf b ≠ 2047#11 := by
  unfold UnpackedFloat.unpack
  by_cases full : exponentOf b = 2047#11
  · have ones : @unpackExponent Format.binary64 b = -1#11 := full
    rw [if_pos ones]
    split <;> simp [UnpackedFloat.isFinite, full]
  · have ones : ¬ @unpackExponent Format.binary64 b = -1#11 := full
    rw [if_neg ones]
    split
    · split <;> simp [UnpackedFloat.isFinite, full]
    · simp [UnpackedFloat.isFinite, full]

/- What is packed has the same exponent with either sign. -/
theorem exponentNegated (u : UnpackedFloat) :
    exponentOf (UnpackedFloat.pack Format.binary64 u.neg) =
      exponentOf (UnpackedFloat.pack Format.binary64 u) := by
  cases u with
  | notANumber => rfl
  | infinity | zero =>
    simp only [UnpackedFloat.neg, UnpackedFloat.pack, packedInfinity, packedZero, exponentOf,
      unpackExponent_packComponents]
  | finite =>
    simp only [UnpackedFloat.neg, UnpackedFloat.pack, packedInfinity, exponentOf]
    split
    · simp only [unpackExponent_packComponents]
    · split <;> simp only [unpackExponent_packComponents]

/- Only bits that name no number are packed in another way than they were. -/
theorem exponentPacked (b : BitVec 64) :
    exponentOf (UnpackedFloat.pack Format.binary64 (UnpackedFloat.unpack Format.binary64 b)) =
      exponentOf b := by
  rw [pack_unpack]
  split
  · rename_i nan
    exact (of_decide_eq_true nan).1.symm
  · rfl

theorem finiteNegated (x : Float) : (-x).isFinite = x.isFinite := by
  rw [Bool.eq_iff_iff]
  have negated : (-x).isFinite = true ↔ _ := finiteExponent
    (UnpackedFloat.pack Format.binary64 (UnpackedFloat.neg x.toModel.unpack))
  have same : x.isFinite = true ↔ _ := finiteExponent x.toModel.toBits.toBitVec
  rw [negated, same, exponentNegated, Float.Model.unpack, exponentPacked]

theorem finiteBits {b : Nat} (bound : b ≤ 2047 * 2 ^ 52) :
    (Float.ofBits b.toUInt64).isFinite = true ↔ b < 2047 * 2 ^ 52 := by
  have finite : (Float.ofBits b.toUInt64).isFinite = true ↔ _ := finiteExponent
    (UnpackedFloat.pack Format.binary64
      (UnpackedFloat.unpack Format.binary64 b.toUInt64.toBitVec))
  have exponent : (exponentOf b.toUInt64.toBitVec).toNat = b / 2 ^ 52 := by
    have read : exponentOf b.toUInt64.toBitVec = (BitVec.ofNat 64 b).extractLsb' 52 11 :=
      unpackExponent_def _
    rw [read, BitVec.extractLsb'_toNat, BitVec.toNat_ofNat, Nat.shiftRight_eq_div_pow]
    omega
  rw [finite, exponentPacked, ne_eq, ← BitVec.toNat_inj, exponent, BitVec.toNat_ofNat]
  omega

end Bits

section Quotients
variable {num den k : Nat} (positive : 0 < den)
include positive

theorem roundAtMost (below : (num : ℚ) / den < k) : roundQuotient num den ≤ k := by
  rw [div_lt_iff₀ (by exact_mod_cast positive)] at below
  have quotient : num / den < k :=
    Nat.div_lt_of_lt_mul (by rw [Nat.mul_comm]; exact_mod_cast below)
  simp only [roundQuotient]
  split <;> omega

theorem roundAtLeast (above : (k : ℚ) ≤ num / den) : k ≤ roundQuotient num den := by
  rw [le_div_iff₀ (by exact_mod_cast positive)] at above
  have quotient : k ≤ num / den := (Nat.le_div_iff_mul_le positive).2 (by exact_mod_cast above)
  simp only [roundQuotient]
  split <;> omega

/- The fractions that are rounded to an even number begin half a unit below it. -/
theorem roundBelow (even : k % 2 = 0) (some : 0 < k) :
    roundQuotient num den < k ↔ (num : ℚ) / den < k - 1 / 2 := by
  have room : (0 : ℚ) < den := by exact_mod_cast positive
  have half : (num : ℚ) / den < k - 1 / 2 ↔ 2 * num + den < 2 * k * den := by
    rw [div_lt_iff₀ room, ← Nat.cast_lt (α := ℚ)]
    push_cast
    constructor <;> intro <;> linarith
  have parts := Nat.div_add_mod num den
  have rest := Nat.mod_lt num positive
  rw [half]
  simp only [roundQuotient]
  generalize num / den = quotient at *
  generalize num % den = r at *
  subst parts
  rcases Nat.lt_trichotomy (quotient + 1) k with below | last | above
  · have full : (quotient + 2) * den ≤ k * den := Nat.mul_le_mul_right _ below
    split <;> constructor <;> intro <;> first | omega | nlinarith
  · subst last
    have whole : 2 * (quotient + 1) * den = 2 * (den * quotient) + 2 * den := by ring
    rw [whole]
    generalize den * quotient = passed
    split <;> omega
  · have full : k * den ≤ quotient * den := Nat.mul_le_mul_right _ (by omega)
    split <;> constructor <;> intro <;> first | omega | nlinarith

end Quotients

section Places
variable {num den : Nat} (positive : 0 < den)
include positive

theorem shiftedLe (e : Int) (num : Nat) :
    (if 0 ≤ e then decide (den <<< e.toNat ≤ num) else decide (den ≤ num <<< (-e).toNat)) = true ↔
      (2 : ℚ) ^ e ≤ num / den := by
  have room : (0 : ℚ) < den := by exact_mod_cast positive
  rw [le_div_iff₀ room]
  split
  · rename_i up
    obtain ⟨n, rfl⟩ := Int.eq_ofNat_of_zero_le up
    rw [decide_eq_true_iff, Nat.shiftLeft_eq, Int.toNat_natCast, zpow_natCast, mul_comm]
    exact_mod_cast Iff.rfl
  · rename_i down
    obtain ⟨n, rfl⟩ : ∃ n : Nat, e = -n := ⟨(-e).toNat, by omega⟩
    rw [decide_eq_true_iff, Nat.shiftLeft_eq, neg_neg, Int.toNat_natCast, zpow_neg, zpow_natCast,
      inv_mul_le_iff₀ (by positivity), mul_comm]
    exact_mod_cast Iff.rfl

/- The last place stands 52 places behind the first, or is the least there is. -/
theorem lastPlaceAt (some : num ≠ 0) :
    ∃ e : Int, (2 : ℚ) ^ e ≤ num / den ∧ (num : ℚ) / den < 2 ^ (e + 1) ∧
      lastPlace num den = max (e - 52) (-1074) := by
  have room : (0 : ℚ) < den := by exact_mod_cast positive
  have numLow : (2 : ℚ) ^ num.log2 ≤ num := by exact_mod_cast Nat.log2_self_le some
  have numHigh : (num : ℚ) < 2 ^ (num.log2 + 1) := by exact_mod_cast Nat.lt_log2_self
  have denLow : (2 : ℚ) ^ den.log2 ≤ den := by
    exact_mod_cast Nat.log2_self_le (Nat.ne_of_gt positive)
  have denHigh : (den : ℚ) < 2 ^ (den.log2 + 1) := by exact_mod_cast Nat.lt_log2_self
  simp only [lastPlace]
  generalize estimated : (num.log2 : Int) - den.log2 = estimate
  have upper : (num : ℚ) / den < 2 ^ (estimate + 1) := by
    rw [div_lt_iff₀ room]
    calc (num : ℚ) < 2 ^ (num.log2 + 1) := numHigh
      _ = 2 ^ (estimate + 1) * 2 ^ den.log2 := by
        rw [← zpow_natCast, ← zpow_natCast, ← zpow_add₀ two_ne_zero]; congr 1; omega
      _ ≤ 2 ^ (estimate + 1) * den := by gcongr
  have lower : (2 : ℚ) ^ (estimate - 1) ≤ num / den := by
    rw [le_div_iff₀ room]
    calc (2 : ℚ) ^ (estimate - 1) * den ≤ 2 ^ (estimate - 1) * 2 ^ (den.log2 + 1) := by gcongr
      _ = 2 ^ num.log2 := by
        rw [← zpow_natCast, ← zpow_natCast, ← zpow_add₀ two_ne_zero]; congr 1; omega
      _ ≤ num := numLow
  have exact := shiftedLe positive estimate num
  by_cases reached : (2 : ℚ) ^ estimate ≤ num / den
  · exact ⟨estimate, reached, upper, by rw [if_pos (exact.2 reached)]⟩
  · refine ⟨estimate - 1, lower, ?_, by rw [if_neg (fun test => reached (exact.1 test))]⟩
    rw [Int.sub_add_cancel]
    exact not_le.1 reached

/- The units of a place are those of a fraction that is as many times larger. -/
theorem unitsAt (num : Nat) (place : Int) :
    ∃ n d : Nat, 0 < d ∧ (n : ℚ) / d = num / den / 2 ^ place ∧
      (if 0 ≤ place then roundQuotient num (den <<< place.toNat)
        else roundQuotient (num <<< (-place).toNat) den) = roundQuotient n d := by
  split
  · rename_i up
    obtain ⟨p, rfl⟩ := Int.eq_ofNat_of_zero_le up
    refine ⟨num, den <<< p, ?_, ?_, by simp⟩
    · rw [Nat.shiftLeft_eq]; positivity
    · rw [Nat.shiftLeft_eq, zpow_natCast, div_div]; norm_cast
  · rename_i down
    obtain ⟨p, rfl⟩ : ∃ p : Nat, place = -p := ⟨(-place).toNat, by omega⟩
    refine ⟨num <<< p, den, positive, ?_, by simp⟩
    rw [Nat.shiftLeft_eq, zpow_neg, zpow_natCast, div_inv_eq_mul, div_mul_eq_mul_div]
    norm_cast

end Places

/- The middle between the largest float and the power of two behind it. -/
def rangeEnd : ℚ := 2 ^ 1024 - 2 ^ 970

theorem rangeEndUnits : rangeEnd = (2 ^ 53 - 1 / 2) * 2 ^ (971 : Int) := by
  have last : (2 : ℚ) ^ (53 : Nat) * 2 ^ (971 : Int) = 2 ^ 1024 := by
    rw [← zpow_natCast, ← zpow_add₀ two_ne_zero, ← zpow_natCast]; rfl
  have half : (2 : ℚ) ^ (971 : Int) = 2 * 2 ^ 970 := by
    rw [← zpow_natCast, ← zpow_one_add₀ two_ne_zero]; rfl
  rw [rangeEnd, sub_mul, last, half, ← mul_assoc, one_div, inv_mul_cancel₀ two_ne_zero, one_mul]

theorem rangeEndBetween : (2 : ℚ) ^ (1023 : Int) ≤ rangeEnd ∧ rangeEnd ≤ 2 ^ (1024 : Int) := by
  have unit : (0 : ℚ) ≤ 2 ^ (971 : Int) := zpow_nonneg zero_le_two _
  have low : (2 : ℚ) ^ (1023 : Int) = 2 ^ (52 : Int) * 2 ^ (971 : Int) := by
    rw [← zpow_add₀ two_ne_zero]; rfl
  have high : (2 : ℚ) ^ (1024 : Int) = 2 ^ (53 : Int) * 2 ^ (971 : Int) := by
    rw [← zpow_add₀ two_ne_zero]; rfl
  rw [rangeEndUnits, low, high]
  exact ⟨mul_le_mul_of_nonneg_right (by norm_num) unit, mul_le_mul_of_nonneg_right (by norm_num) unit⟩

theorem unitsFinite (units : Nat) (place : Int) :
    (ofUnits units place).isFinite = true ↔
      (place + 1074).toNat * 2 ^ 52 + units < 2047 * 2 ^ 52 := by
  rw [ofUnits, Nat.shiftLeft_eq, Nat.shiftLeft_eq, finiteBits (Nat.min_le_right _ _)]
  omega

theorem nearestFinite (num : Nat) {den : Nat} (positive : 0 < den) :
    (nearest num den).isFinite = true ↔ (num : ℚ) / den < rangeEnd := by
  obtain ⟨above, below⟩ := rangeEndBetween
  by_cases none : num = 0
  · subst none
    have zero : (nearest 0 den).isFinite = true := by
      rw [nearest, if_pos rfl]; rfl
    have some : 0 < rangeEnd := lt_of_lt_of_le (zpow_pos two_pos _) above
    simpa [zero] using some
  obtain ⟨e, low, high, last⟩ := lastPlaceAt positive none
  obtain ⟨n, d, some, same, units⟩ := unitsAt positive num (lastPlace num den)
  rw [nearest, if_neg none]
  simp only [units, unitsFinite]
  rw [last] at same ⊢
  have unitsAtMost : roundQuotient n d ≤ 2 ^ 53 := by
    refine roundAtMost some ?_
    rw [same, div_lt_iff₀ (zpow_pos two_pos _)]
    rw [Nat.cast_pow, Nat.cast_ofNat, ← zpow_natCast, ← zpow_add₀ two_ne_zero]
    exact lt_of_lt_of_le high (zpow_le_zpow_right₀ one_le_two (by omega))
  rcases Int.lt_trichotomy e 1023 with inside | edge | beyond
  · have small : (num : ℚ) / den < rangeEnd :=
      lt_of_lt_of_le high (le_trans (zpow_le_zpow_right₀ one_le_two (by omega)) above)
    simp only [small, iff_true]
    omega
  · subst edge
    have place : max ((1023 : Int) - 52) (-1074) = 971 := rfl
    rw [place] at same ⊢
    have rounded := @roundBelow n d (2 ^ 53) some (by decide) (by decide)
    rw [same, div_lt_iff₀ (zpow_pos two_pos _), Nat.cast_pow, Nat.cast_ofNat, ← rangeEndUnits] at rounded
    rw [← rounded]
    have field : ((971 : Int) + 1074).toNat = 2045 := rfl
    omega
  · have large : rangeEnd ≤ (num : ℚ) / den :=
      le_trans below (le_trans (zpow_le_zpow_right₀ one_le_two (by omega)) low)
    have unitsAtLeast : 2 ^ 52 ≤ roundQuotient n d := by
      refine roundAtLeast some ?_
      rw [same, le_div_iff₀ (zpow_pos two_pos _)]
      rw [Nat.cast_pow, Nat.cast_ofNat, ← zpow_natCast, ← zpow_add₀ two_ne_zero]
      exact le_trans (zpow_le_zpow_right₀ one_le_two (by omega)) low
    simp only [not_lt.2 large, iff_false]
    omega

/- A decimal below the range's end has a finite float next to it, and no other has. -/
theorem scaledFinite (significand : Nat) (exponent : Int) :
    (scaled significand exponent).isFinite = true ↔ (significand : ℚ) * 10 ^ exponent < rangeEnd := by
  obtain ⟨above, below⟩ := rangeEndBetween
  have room : 0 < rangeEnd := lt_of_lt_of_le (zpow_pos two_pos _) above
  have zero : (0.0 : Float).isFinite = true := rfl
  have infinity : ((1.0 : Float) / 0.0).isFinite = false := rfl
  unfold scaled
  split
  · rename_i none
    simpa [none, zero] using room
  rename_i some
  have one : (1 : ℚ) ≤ significand := by exact_mod_cast Nat.one_le_iff_ne_zero.2 some
  split
  · rename_i large
    have beyond : rangeEnd ≤ (significand : ℚ) * 10 ^ exponent := by
      calc rangeEnd ≤ 2 ^ (1024 : Int) := below
        _ ≤ 2 ^ (3 * exponent) := zpow_le_zpow_right₀ one_le_two (by omega)
        _ = 8 ^ exponent := by rw [zpow_mul]; norm_num
        _ ≤ 10 ^ exponent := zpow_le_zpow_left₀ (by omega) (by norm_num) (by norm_num)
        _ ≤ significand * 10 ^ exponent := le_mul_of_one_le_left (by positivity) one
    simp only [infinity, Bool.false_eq_true, false_iff, not_lt]
    exact beyond
  split
  · rename_i up
    obtain ⟨n, rfl⟩ := Int.eq_ofNat_of_zero_le up
    rw [nearestFinite _ one_pos]
    simp
  obtain ⟨n, rfl⟩ : ∃ n : Nat, exponent = -n := ⟨(-exponent).toNat, by omega⟩
  split
  · rename_i small
    have tiny : (significand : ℚ) * 10 ^ (-n : Int) < rangeEnd := by
      have digits : (significand : ℚ) < 2 ^ (significand.log2 + 1) := by
        exact_mod_cast Nat.lt_log2_self
      have power : (10 : ℚ) ^ (-n : Int) ≤ 8 ^ (-n : Int) := by
        rw [zpow_neg, zpow_neg, zpow_natCast, zpow_natCast]
        gcongr
        norm_num
      calc (significand : ℚ) * 10 ^ (-n : Int)
          ≤ 2 ^ (significand.log2 + 1) * 8 ^ (-n : Int) := by gcongr
        _ = 2 ^ (significand.log2 + 1 + 3 * (-n : Int)) := by
          rw [show (8 : ℚ) = 2 ^ (3 : Int) by norm_num, ← zpow_mul, ← zpow_natCast,
            ← zpow_add₀ two_ne_zero]
          rfl
        _ < 2 ^ (1023 : Int) := zpow_lt_zpow_right₀ one_lt_two (by omega)
        _ ≤ rangeEnd := above
    simpa [zero] using tiny
  · have positive : 0 < Nat.pow 10 n := Nat.pow_pos (by decide)
    rw [neg_neg, Int.toNat_natCast, nearestFinite _ positive]
    simp [div_eq_mul_inv]

end Intake.Decimal
