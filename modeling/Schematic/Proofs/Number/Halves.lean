import Schematic.Proofs.Exact
import Schematic.Proofs.Number.Doubles

/-!
# Whole numbers and halves

A value that is halved once is a whole number of halves.  Such values are
decimals of one place, so rounding to six places keeps them; and up to
`2 ^ 52` they have at most fifty-three binary digits, so double precision holds
them exactly.
-/

namespace Schematic

namespace Number

/-- The whole numbers. -/
def wholes : AddSubgroup Rat :=
  AddSubgroup.zmultiples 1

/-- The multiples of one half. -/
def halves : AddSubgroup Rat :=
  AddSubgroup.zmultiples (1 / 2)

theorem mem_wholes {value : Rat} : value ∈ wholes ↔ ∃ count : Int, value = count := by
  simp [wholes, AddSubgroup.mem_zmultiples_iff, eq_comm]

theorem mem_halves {value : Rat} : value ∈ halves ↔ ∃ count : Int, value = count / 2 := by
  simp [halves, AddSubgroup.mem_zmultiples_iff, div_eq_mul_inv, eq_comm]

theorem natCast_mem_wholes (count : Nat) : (count : Rat) ∈ wholes :=
  mem_wholes.mpr ⟨count, (Int.cast_natCast count).symm⟩

theorem mul_mem_wholes {first second : Rat} (firstWhole : first ∈ wholes)
    (secondWhole : second ∈ wholes) : first * second ∈ wholes := by
  obtain ⟨firstCount, rfl⟩ := mem_wholes.mp firstWhole
  obtain ⟨secondCount, rfl⟩ := mem_wholes.mp secondWhole
  exact mem_wholes.mpr ⟨firstCount * secondCount, by push_cast; rfl⟩

theorem half_mem_halves {value : Rat} (whole : value ∈ wholes) : value / 2 ∈ halves := by
  obtain ⟨count, rfl⟩ := mem_wholes.mp whole
  exact mem_halves.mpr ⟨count, rfl⟩

theorem mem_halves_of_mem_wholes {value : Rat} (whole : value ∈ wholes) : value ∈ halves := by
  rw [← add_halves value]
  exact halves.add_mem (half_mem_halves whole) (half_mem_halves whole)

/-! ## Rounding -/

theorem roundHalfEven_intCast (count : Int) : roundHalfEven (count : Rat) = count := by
  simp [roundHalfEven]

theorem scaledRound_halves (count : Int) : scaledRound 6 ((count : Rat) / 2) = count * 500000 := by
  have scaled : (count : Rat) / 2 * (Nat.pow 10 6 : Nat) = ((count * 500000 : Int) : Rat) := by
    push_cast
    norm_num
    ring
  rw [scaledRound, scaled, roundHalfEven_intCast]

/-- Rounding to six places keeps halves. -/
theorem roundToPlaces_halves {value : Rat} (half : value ∈ halves) :
    roundToPlaces 6 value = value := by
  obtain ⟨count, rfl⟩ := mem_halves.mp half
  rw [roundToPlaces, scaledRound_halves]
  push_cast
  norm_num
  ring

/-! ## Double precision -/

theorem exists_withSign (value : Rat) : ∃ sign, value = withSign sign |value| := by
  rcases abs_choice value with same | same
  · exact ⟨.positive, same.symm⟩
  · exact ⟨.negative, by rw [withSign, same, neg_neg]⟩

/-- The size of a multiple of one half. -/
theorem exists_abs_eq {value : Rat} (half : value ∈ halves) :
    ∃ count : Nat, |value| = (count : Rat) / 2 := by
  obtain ⟨count, rfl⟩ := mem_halves.mp half
  refine ⟨count.natAbs, ?_⟩
  rw [abs_div, Nat.cast_natAbs, Int.cast_abs, abs_two]

theorem isRepresentable_halves {value : Rat} (half : value ∈ halves) (below : |value| < 2 ^ 52) :
    IsRepresentable value := by
  obtain ⟨sign, signedSize⟩ := exists_withSign value
  obtain ⟨count, size⟩ := exists_abs_eq half
  rw [size, div_lt_iff₀ (by norm_num)] at below
  have short : count < 2 ^ 53 := by
    have whole : (count : Rat) < (2 ^ 53 : Nat) := below.trans_eq (by norm_num)
    exact Nat.cast_lt.mp whole
  have asDyadic : (count : Rat) / 2 = dyadic count (-1) := by
    rw [dyadic, zpow_neg_one, div_eq_mul_inv]
  rw [signedSize, size, asDyadic]
  exact isRepresentable_withSign sign short (by decide) (by decide)

theorem abs_mem_halves {value : Rat} (half : value ∈ halves) : |value| ∈ halves := by
  rcases abs_choice value with same | same
  · rwa [same]
  · rw [same]
    exact halves.neg_mem half

/-- The decimal of six places that a multiple of one half is rounded to. -/
theorem isExactly_decimal {value : Rat} (half : value ∈ halves) (below : |value| < 2 ^ 52) :
    IsExactly (Float.ofScientific (scaledRound 6 |value|).toNat true 6) |value| := by
  have representable := isRepresentable_halves (abs_mem_halves half) (by rwa [abs_abs])
  obtain ⟨count, size⟩ := exists_abs_eq half
  have places : (scaledRound 6 |value|).toNat = count * 500000 := by
    rw [size, ← Int.cast_natCast, scaledRound_halves]
    omega
  have decimal : |value| = ((count * 500000 : Nat) : Rat) / 1000000 := by
    rw [size]
    push_cast
    ring
  rw [places]
  rw [decimal] at representable ⊢
  exact isExactly_ofScientific representable

/-- The parts of a number give the size of its value and its sign. -/
theorem IsExactly.exists_parts {number : Float} {value : Rat} (exact : IsExactly number value) :
    ∃ negative significand exponent,
      Binary64.ofFloat number = .finite negative significand exponent ∧
      (significand : Rat) * twoPow exponent = |value| ∧
      value = if negative then -|value| else |value| := by
  rw [IsExactly] at exact
  generalize Binary64.ofFloat number = parts at exact
  cases parts with
  | infinite negative => cases exact
  | undefined => cases exact
  | finite negative significand exponent =>
      have nonnegative : 0 ≤ (significand : Rat) * twoPow exponent :=
        mul_nonneg (Nat.cast_nonneg _) (twoPow_pos _).le
      obtain rfl := Option.some_inj.mp exact
      refine ⟨negative, significand, exponent, rfl, ?_⟩
      cases negative
      · exact ⟨(abs_of_nonneg nonnegative).symm, (abs_of_nonneg nonnegative).symm⟩
      · simp [abs_of_nonneg nonnegative]

/-- Rounding to six places keeps the value of a number that is a multiple of one
half. -/
theorem IsExactly.roundFloat {number : Float} {value : Rat} (exact : IsExactly number value)
    (half : value ∈ halves) (below : |value| < 2 ^ 52) :
    IsExactly (roundFloat 6 number) value := by
  obtain ⟨negative, significand, exponent, parts, size, sign⟩ := exact.exists_parts
  have decimal := isExactly_decimal half below
  simp only [Number.roundFloat, parts, size]
  generalize Float.ofScientific (scaledRound 6 |value|).toNat true 6 = rounded at decimal ⊢
  rw [sign]
  cases negative
  · exact decimal
  · exact decimal.neg

/-- The larger one is the same one in both arithmetics if both compare alike. -/
theorem larger_related {related : Float → Rat → Prop} {first second : Float}
    {firstValue secondValue : Rat} (alike : first < second ↔ firstValue < secondValue)
    (firsts : related first firstValue) (seconds : related second secondValue) :
    related (Scalar.larger first second) (Scalar.larger firstValue secondValue) := by
  unfold Scalar.larger
  by_cases less : firstValue < secondValue
  · rw [if_pos less, if_pos (alike.mpr less)]
    exact seconds
  · rw [if_neg less, if_neg (less ∘ alike.mp)]
    exact firsts

/-! ## Exact halves -/

/-- The value of the number is a multiple of one half, and below the size up to
which double precision has all of them. -/
structure HoldsHalf (number : Float) (value : Rat) : Prop where
  exact : IsExactly number value
  half : value ∈ halves
  below : |value| < 2 ^ 52

theorem exists_holdsHalf {value : Rat} (half : value ∈ halves) (below : |value| < 2 ^ 52) :
    ∃ number, HoldsHalf number value := by
  obtain ⟨number, exact⟩ := (isRepresentable_halves half below).exists_isExactly
  exact ⟨number, exact, half, below⟩

theorem holdsHalf_ofNat {count : Nat} (below : count < 2 ^ 52) :
    HoldsHalf (Scalar.ofNat count) count where
  exact := isExactly_ofNat (by omega)
  half := mem_halves_of_mem_wholes (natCast_mem_wholes count)
  below := by
    rw [abs_of_nonneg (Nat.cast_nonneg count)]
    exact (Nat.cast_lt.mpr below).trans_eq (by norm_num)

namespace HoldsHalf

variable {first second : Float} {firstValue secondValue : Rat}
  (firstHolds : HoldsHalf first firstValue) (secondHolds : HoldsHalf second secondValue)

include firstHolds

theorem abs : HoldsHalf (Scalar.abs first) |firstValue| :=
  ⟨firstHolds.exact.abs, abs_mem_halves firstHolds.half,
    (abs_abs firstValue).trans_lt firstHolds.below⟩

theorem roundTo : HoldsHalf (Scalar.roundTo 6 first) firstValue :=
  ⟨firstHolds.exact.roundFloat firstHolds.half firstHolds.below, firstHolds.half, firstHolds.below⟩

theorem scalar_half (whole : firstValue ∈ wholes) :
    HoldsHalf (Scalar.half first) (Scalar.half firstValue) := by
  have two : HoldsHalf (Scalar.ofNat 2) (2 : Nat) := holdsHalf_ofNat (by norm_num)
  have below : |firstValue / (2 : Nat)| < 2 ^ 52 := by
    rw [abs_div, Nat.abs_cast]
    exact (div_le_self (abs_nonneg firstValue) (by norm_num)).trans_lt firstHolds.below
  have half : firstValue / (2 : Nat) ∈ halves := half_mem_halves whole
  exact ⟨firstHolds.exact.div two.exact (by norm_num) (isRepresentable_halves half below), half,
    below⟩

include secondHolds

theorem add (below : |firstValue + secondValue| < 2 ^ 52) :
    HoldsHalf (first + second) (firstValue + secondValue) := by
  have half := halves.add_mem firstHolds.half secondHolds.half
  exact ⟨firstHolds.exact.add secondHolds.exact (isRepresentable_halves half below), half, below⟩

theorem sub (below : |firstValue - secondValue| < 2 ^ 52) :
    HoldsHalf (first - second) (firstValue - secondValue) := by
  have half := halves.sub_mem firstHolds.half secondHolds.half
  exact ⟨firstHolds.exact.sub secondHolds.exact (isRepresentable_halves half below), half, below⟩

theorem mul (firstWhole : firstValue ∈ wholes) (secondWhole : secondValue ∈ wholes)
    (below : |firstValue * secondValue| < 2 ^ 52) :
    HoldsHalf (first * second) (firstValue * secondValue) := by
  have half := mem_halves_of_mem_wholes (mul_mem_wholes firstWhole secondWhole)
  exact ⟨firstHolds.exact.mul secondHolds.exact (isRepresentable_halves half below), half, below⟩

theorem larger : HoldsHalf (Scalar.larger first second) (Scalar.larger firstValue secondValue) :=
  larger_related (firstHolds.exact.lt_iff secondHolds.exact) firstHolds secondHolds

end HoldsHalf

/-! ## Bounded halves -/

/-- The number holds exactly the value, which is a multiple of one half and not larger than
the limit. -/
structure HoldsWithin (limit : Rat) (number : Float) (value : Rat) : Prop where
  holdsHalf : HoldsHalf number value
  within : |value| ≤ limit

/-- The number holds a multiple of one half that is not larger than the limit. -/
def IsWithin (limit : Rat) (number : Float) : Prop :=
  ∃ value, HoldsWithin limit number value

section

variable {limit larger : Rat} {first second : Float}

theorem HoldsWithin.isWithin {value : Rat} (holds : HoldsWithin limit first value) :
    IsWithin limit first :=
  ⟨value, holds⟩

theorem IsWithin.mono (within : IsWithin limit first) (atMost : limit ≤ larger) :
    IsWithin larger first := by
  obtain ⟨value, holds⟩ := within
  exact ⟨value, holds.holdsHalf, holds.within.trans atMost⟩

theorem isWithin_ofNat {count : Nat} (small : (count : Rat) ≤ limit) (below : count < 2 ^ 52) :
    IsWithin limit (Scalar.ofNat count) :=
  ⟨count, holdsHalf_ofNat below, by rwa [Nat.abs_cast]⟩

theorem isWithin_half_ofNat {count : Nat} (small : (count : Rat) ≤ limit)
    (below : count < 2 ^ 52) : IsWithin limit (Scalar.half (Scalar.ofNat count)) := by
  refine ⟨_, (holdsHalf_ofNat below).scalar_half (natCast_mem_wholes count), ?_⟩
  rw [Scalar.half_eq, abs_div, Nat.abs_cast, abs_two]
  exact (div_le_self count.cast_nonneg one_le_two).trans small

theorem IsWithin.add (firstWithin : IsWithin limit first) (secondWithin : IsWithin larger second)
    (below : limit + larger < 2 ^ 52) : IsWithin (limit + larger) (first + second) := by
  obtain ⟨firstValue, firstHolds⟩ := firstWithin
  obtain ⟨secondValue, secondHolds⟩ := secondWithin
  have within := (abs_add_le firstValue secondValue).trans
    (add_le_add firstHolds.within secondHolds.within)
  exact ⟨_, firstHolds.holdsHalf.add secondHolds.holdsHalf (within.trans_lt below), within⟩

theorem IsWithin.sub (firstWithin : IsWithin limit first) (secondWithin : IsWithin larger second)
    (below : limit + larger < 2 ^ 52) : IsWithin (limit + larger) (first - second) := by
  obtain ⟨firstValue, firstHolds⟩ := firstWithin
  obtain ⟨secondValue, secondHolds⟩ := secondWithin
  have within := (abs_sub firstValue secondValue).trans
    (add_le_add firstHolds.within secondHolds.within)
  exact ⟨_, firstHolds.holdsHalf.sub secondHolds.holdsHalf (within.trans_lt below), within⟩

theorem IsWithin.roundTo (within : IsWithin limit first) :
    IsWithin limit (Scalar.roundTo 6 first) := by
  obtain ⟨value, holds⟩ := within
  exact ⟨value, holds.holdsHalf.roundTo, holds.within⟩

end

end Number

end Schematic
