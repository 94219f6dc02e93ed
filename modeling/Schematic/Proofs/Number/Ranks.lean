import Schematic.Proofs.Number.Doubles

/-!
# Ranks of scalars

The network of a layout is found by comparisons only.  Rationals are compared as
they are; double-precision numbers are compared by their values, where an
infinity is beyond all of them, and what is not a number is not even equal to
itself.  So every other number has a rank among the rationals, and comparing
numbers means comparing their ranks.
-/

namespace Schematic

/-- Scalars that are compared by their ranks.  A scalar without a rank is not
equal to anything. -/
class Scalar.Ranked (α : Type) [Scalar α] where
  /-- Where a scalar is in the order of the rationals. -/
  HasRank : α → Rat → Prop
  exists_rank {value : α} : (value == value) = true → ∃ rank, HasRank value rank
  beq_iff {first second : α} {rank : Rat} : HasRank second rank →
    ((first == second) = true ↔ HasRank first rank)
  lt_iff {first second : α} {firstRank secondRank : Rat} : HasRank first firstRank →
    HasRank second secondRank → (first < second ↔ firstRank < secondRank)
  le_iff {first second : α} {firstRank secondRank : Rat} : HasRank first firstRank →
    HasRank second secondRank → (first ≤ second ↔ firstRank ≤ secondRank)

instance : Scalar.Ranked Rat where
  HasRank value rank := value = rank
  exists_rank {value} _ := ⟨value, rfl⟩
  beq_iff {first second rank} same := by rw [beq_iff_eq, same]
  lt_iff {first second firstRank secondRank} same other := by rw [same, other]
  le_iff {first second firstRank secondRank} same other := by rw [same, other]

namespace Number

open Float.Model Float.Model.UnpackedFloat

/-- An infinity is ranked beyond all finite numbers. -/
inductive Ranks : UnpackedFloat → Rat → Prop where
  | finite {number : UnpackedFloat} {value : Rat} : Holds number value → Ranks number value
  | infinity (sign : Sign) : Ranks (.infinity sign) (withSign sign (2 ^ 1024))

theorem IsCanonical.dyadic_lt_infinity {significand : Nat} {exponent : Int}
    (canonical : IsCanonical significand exponent) (fits : exponent ≤ 971) :
    dyadic significand exponent < 2 ^ 1024 := by
  have below : (significand : Rat) < 2 ^ 53 := by exact_mod_cast canonical.below
  have power : (2 : Rat) ^ exponent ≤ 2 ^ (971 : Int) :=
    zpow_le_zpow_right₀ (by norm_num) fits
  calc dyadic significand exponent
      < 2 ^ 53 * 2 ^ exponent := mul_lt_mul_of_pos_right below (zpow_pos (by norm_num) exponent)
    _ ≤ 2 ^ 53 * 2 ^ (971 : Int) := mul_le_mul_of_nonneg_left power (by positivity)
    _ = 2 ^ 1024 := by
      rw [← zpow_natCast, ← zpow_natCast, ← zpow_add₀ (by norm_num)]
      rfl

theorem Holds.abs_lt {number : UnpackedFloat} {value : Rat} (holds : Holds number value) :
    |value| < 2 ^ 1024 := by
  cases holds with
  | zero sign => norm_num
  | finite sign canonical fits =>
      rw [abs_withSign (dyadic_pos canonical.positive _).le]
      exact canonical.dyadic_lt_infinity fits

theorem compare_ranks {first second : UnpackedFloat} {firstRank secondRank : Rat}
    (firstRanks : Ranks first firstRank) (secondRanks : Ranks second secondRank) :
    first.compare second = some (compare firstRank secondRank) := by
  have large : (0 : Rat) < 2 ^ 1024 := by positivity
  have apart : -(2 ^ 1024 : Rat) < 2 ^ 1024 := (neg_neg_of_pos large).trans large
  cases firstRanks with
  | finite firstHolds =>
      cases secondRanks with
      | finite secondHolds => exact compare_holds firstHolds secondHolds
      | infinity sign =>
          have bounds := abs_lt.mp firstHolds.abs_lt
          cases sign with
          | positive =>
              rw [withSign, compare_lt_iff_lt.mpr bounds.2]
              cases firstHolds <;> rfl
          | negative =>
              rw [withSign, compare_gt_iff_gt.mpr bounds.1]
              cases firstHolds <;> rfl
  | infinity sign =>
      cases secondRanks with
      | finite secondHolds =>
          have bounds := abs_lt.mp secondHolds.abs_lt
          cases sign with
          | positive =>
              rw [withSign, compare_gt_iff_gt.mpr bounds.2]
              cases secondHolds <;> rfl
          | negative =>
              rw [withSign, compare_lt_iff_lt.mpr bounds.1]
              cases secondHolds <;> rfl
      | infinity other =>
          cases sign <;> cases other
          · rw [compare_eq_iff_eq.mpr rfl]
            rfl
          · rw [withSign, withSign, compare_lt_iff_lt.mpr apart]
            rfl
          · rw [withSign, withSign, compare_gt_iff_gt.mpr apart]
            rfl
          · rw [compare_eq_iff_eq.mpr rfl]
            rfl

/-- The bits of a number say where it ranks. -/
theorem exists_ranks_of_bits (bits : BitVec 64)
    (isNumber : UnpackedFloat.unpack binary64 bits ≠ .notANumber) :
    ∃ rank, Ranks (UnpackedFloat.unpack binary64 bits) rank := by
  cases found : (Binary64.ofBits bits.toNat).value? with
  | some value => exact ⟨value, .finite ((value?_ofBits bits value).mp found)⟩
  | none =>
      have greatest : (@unpackExponent binary64 bits).toNat = 2047 := by
        by_contra notGreatest
        rw [unpackExponent_toNat] at notGreatest
        rw [Binary64.ofBits, if_neg notGreatest] at found
        split at found <;> simp [value?_finite] at found
      have ones : @unpackExponent binary64 bits = -1#11 := BitVec.eq_of_toNat_eq greatest
      unfold UnpackedFloat.unpack at isNumber ⊢
      rw [if_pos ones] at isNumber ⊢
      split at isNumber
      · next infinite =>
        rw [if_pos infinite]
        exact ⟨_, .infinity _⟩
      · exact absurd rfl isNumber

theorem ne_notANumber_of_beq {first second : Float} (same : (first == second) = true) :
    first.toModel.unpack ≠ .notANumber := by
  intro undefined
  have compared : first.toModel.unpack.compare second.toModel.unpack = some .eq :=
    beq_iff_eq.mp same
  rw [undefined] at compared
  cases second.toModel.unpack <;> cases compared

theorem exists_ranks {number : Float} (isNumber : number.toModel.unpack ≠ .notANumber) :
    ∃ rank, Ranks number.toModel.unpack rank :=
  exists_ranks_of_bits number.toModel.toBits.toBitVec isNumber

namespace Ranks

variable {first second : Float} {firstRank secondRank : Rat}
  (firstRanks : Ranks first.toModel.unpack firstRank)
  (secondRanks : Ranks second.toModel.unpack secondRank)

include firstRanks secondRanks

theorem lt_iff : first < second ↔ firstRank < secondRank := by
  show decide (first.toModel.unpack.lt second.toModel.unpack = true) = true ↔ _
  rw [decide_eq_true_iff, UnpackedFloat.lt, compare_ranks firstRanks secondRanks, beq_iff_eq,
    Option.some_inj, compare_lt_iff_lt]

theorem le_iff : first ≤ second ↔ firstRank ≤ secondRank := by
  show decide (first.toModel.unpack.le second.toModel.unpack = true) = true ↔ _
  rw [decide_eq_true_iff, UnpackedFloat.le, compare_ranks firstRanks secondRanks,
    Option.any_some, Ordering.isLE_iff_ne_gt, ← compare_le_iff_le]

theorem beq_iff : (first == second) = true ↔ firstRank = secondRank := by
  show first.toModel.unpack.beq second.toModel.unpack = true ↔ _
  rw [UnpackedFloat.beq, compare_ranks firstRanks secondRanks, beq_iff_eq,
    Option.some_inj, compare_eq_iff_eq]

end Ranks

end Number

instance : Scalar.Ranked Float where
  HasRank number rank := Number.Ranks number.toModel.unpack rank
  exists_rank same := Number.exists_ranks (Number.ne_notANumber_of_beq same)
  beq_iff {first second rank} secondRanks := by
    constructor
    · intro same
      obtain ⟨firstRank, firstRanks⟩ := Number.exists_ranks (Number.ne_notANumber_of_beq same)
      rwa [← (firstRanks.beq_iff secondRanks).mp same]
    · intro firstRanks
      exact (firstRanks.beq_iff secondRanks).mpr rfl
  lt_iff := Number.Ranks.lt_iff
  le_iff := Number.Ranks.le_iff

end Schematic
