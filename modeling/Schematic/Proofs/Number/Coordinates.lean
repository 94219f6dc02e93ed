import Schematic.Proofs.Number.Halves
import Schematic.Proofs.Number.Literal
import Schematic.Proofs.Number.Nearest

/-!
# Written coordinates

A coordinate is written as a whole number if it is close to one, and with at most
three places otherwise.  What counts as close grows with the coordinate, about as
one billionth of it.  This file proves how far the decimal is from the coordinate,
and that the decimals of two numbers are in the order of the numbers.
-/

namespace Schematic

namespace Number

theorem magnitude_eq (value : Rat) : magnitude value = |value| :=
  Scalar.abs_eq value

/-! ## Fifty-three binary digits -/

/-- The logarithms of numerator and denominator tell the size of a value up to the factor
two. -/
theorem zpow_logarithms_le {value : Rat} (positive : 0 < value) :
    (2 : Rat) ^ ((value.num.natAbs.log2 : Int) - (value.den.log2 : Int) - 1) ≤ value := by
  have numerator : value.num.natAbs ≠ 0 := Int.natAbs_ne_zero.mpr (Rat.num_pos.mpr positive).ne'
  have low : ((2 ^ value.num.natAbs.log2 : Nat) : Rat) ≤ value.num.natAbs :=
    Nat.cast_le.mpr (Nat.log2_self_le numerator)
  have high : (value.den : Rat) ≤ (2 ^ (value.den.log2 + 1) : Nat) :=
    Nat.cast_le.mpr Nat.lt_log2_self.le
  have denominator : (0 : Rat) < value.den := Nat.cast_pos.mpr value.den_pos
  have parts : value = (value.num.natAbs : Rat) / value.den := by
    rw [Nat.cast_natAbs, abs_of_pos (Rat.num_pos.mpr positive), Rat.num_div_den]
  calc (2 : Rat) ^ ((value.num.natAbs.log2 : Int) - (value.den.log2 : Int) - 1)
      = (2 ^ value.num.natAbs.log2 : Nat) / (2 ^ (value.den.log2 + 1) : Nat) := by
        rw [sub_sub, zpow_sub₀ two_ne_zero]
        push_cast
        norm_cast
    _ ≤ value.num.natAbs / value.den := div_le_div₀ (Nat.cast_nonneg _) low denominator high
    _ = value := parts.symm

/-- A positive value has at least `2 ^ 52` units in the last of its digits. -/
theorem twoPow_binaryUnit_le {value : Rat} (positive : 0 < value) :
    twoPow (binaryUnit value) * 2 ^ 52 ≤ value := by
  have two : (2 : Rat) ≠ 0 := two_ne_zero
  have low := zpow_logarithms_le positive
  rw [binaryUnit, twoPow_eq]
  generalize (value.num.natAbs.log2 : Int) - (value.den.log2 : Int) = guess at low ⊢
  split
  · rw [← zpow_natCast, ← zpow_add₀ two]
    rwa [show guess - 53 + (52 : Nat) = guess - 1 by omega]
  · next above =>
    rw [← zpow_natCast, ← zpow_add₀ two, show guess - 52 + (52 : Nat) = guess by omega]
    rwa [twoPow_eq, not_lt] at above

/-- Rounding to fifty-three digits moves a value by at most its `2 ^ 53`-th part. -/
theorem roundBinary_close (value : Rat) : |roundBinary value - value| ≤ |value| / 2 ^ 53 := by
  rw [roundBinary]
  split
  · next zero => simp [zero]
  · next nonzero =>
    have units := twoPow_binaryUnit_le (abs_pos.mpr nonzero)
    rw [magnitude_eq]
    have positive := twoPow_pos (binaryUnit |value|)
    generalize twoPow (binaryUnit |value|) = unit at units positive
    have close : |(roundHalfEven (value / unit) : Rat) - value / unit| ≤ 1 / 2 := by
      obtain ⟨low, high⟩ := roundHalfEven_close (value / unit)
      exact abs_le.mpr ⟨by linarith, by linarith⟩
    calc |(roundHalfEven (value / unit) : Rat) * unit - value|
        = |(roundHalfEven (value / unit) : Rat) - value / unit| * unit := by
          rw [← abs_of_pos positive, ← abs_mul, abs_of_pos positive, sub_mul,
            div_mul_cancel₀ _ positive.ne']
      _ ≤ 1 / 2 * unit := mul_le_mul_of_nonneg_right close positive.le
      _ ≤ |value| / 2 ^ 53 := by linarith

/-! ## Gaps -/

theorem IsRepresentable.exists_dyadic {value : Rat} (representable : IsRepresentable value) :
    value = 0 ∨ ∃ significand exponent, IsCanonical significand exponent ∧
      |value| = dyadic significand exponent := by
  obtain ⟨number, holds⟩ := representable
  cases holds with
  | zero sign => exact .inl rfl
  | finite sign canonical fits =>
      exact .inr ⟨_, _, canonical, abs_withSign (dyadic_pos canonical.positive _).le sign⟩

/-- From a number to the next smaller one it is at least its `2 ^ 53`-th part. -/
theorem IsCanonical.gap {significand other : Nat} {exponent otherExponent : Int}
    (canonical : IsCanonical significand exponent)
    (otherCanonical : IsCanonical other otherExponent)
    (below : dyadic other otherExponent < dyadic significand exponent) :
    dyadic significand exponent ≤
      2 ^ 53 * (dyadic significand exponent - dyadic other otherExponent) := by
  rcases le_or_gt exponent otherExponent with coarser | finer
  · -- The other number has whole units of this one, so they differ by a unit.
    have shifted := dyadic_shift other (otherExponent - exponent).toNat otherExponent
    rw [show otherExponent - ((otherExponent - exponent).toNat : Int) = exponent by omega]
      at shifted
    rw [← shifted] at below ⊢
    generalize other * 2 ^ (otherExponent - exponent).toNat = units at below ⊢
    have unit : (0 : Rat) < 2 ^ exponent := zpow_pos two_pos exponent
    have more : (units : Rat) + 1 ≤ significand := by
      exact_mod_cast Nat.cast_lt.mp (lt_of_mul_lt_mul_right below unit.le)
    have few : (significand : Rat) ≤ 2 ^ 53 := by exact_mod_cast canonical.below.le
    rw [dyadic, dyadic, ← sub_mul, ← mul_assoc]
    exact mul_le_mul_of_nonneg_right (by linarith) unit.le
  · -- The other number has fewer digits in front of the units of this one.
    have least := otherCanonical.least
    have full : (2 : Rat) ^ 52 ≤ significand := by
      exact_mod_cast canonical.full.resolve_right (by omega)
    have short : (other : Rat) ≤ 2 ^ 53 - 1 := by
      have below := otherCanonical.below
      rw [le_sub_iff_add_le]
      exact_mod_cast below
    have unit : (0 : Rat) < 2 ^ (exponent - 1) := zpow_pos two_pos _
    have smaller : (2 : Rat) ^ otherExponent ≤ 2 ^ (exponent - 1) :=
      zpow_le_zpow_right₀ one_le_two (by omega)
    have double : (2 : Rat) ^ exponent = 2 ^ (exponent - 1) * 2 := by
      rw [← zpow_add_one₀ two_ne_zero, sub_add_cancel]
    have otherSize : dyadic other otherExponent ≤ (2 ^ 53 - 1) * 2 ^ (exponent - 1) :=
      mul_le_mul short smaller (zpow_pos two_pos _).le (by norm_num)
    have size : 2 ^ 53 * 2 ^ (exponent - 1) ≤ dyadic significand exponent := by
      rw [dyadic, double]
      nlinarith
    linarith

/-- Two different numbers are at least as far apart as the `2 ^ 53`-th part of each. -/
theorem abs_le_of_ne {first second : Rat} (firstRepresentable : IsRepresentable first)
    (secondRepresentable : IsRepresentable second) (different : first ≠ second) :
    |first| ≤ 2 ^ 53 * |first - second| := by
  have apart : 0 < |first - second| := abs_pos.mpr (sub_ne_zero.mpr different)
  have triangle := abs_sub_abs_le_abs_sub first second
  have otherTriangle := abs_sub_abs_le_abs_sub second first
  rw [abs_sub_comm second first] at otherTriangle
  rcases firstRepresentable.exists_dyadic with rfl | ⟨_, _, firstCanonical, firstSize⟩
  · rw [abs_zero]
    positivity
  · rcases secondRepresentable.exists_dyadic with rfl | ⟨_, _, secondCanonical, secondSize⟩
    · rw [sub_zero]
      linarith [abs_nonneg first]
    · rcases lt_trichotomy |first| |second| with less | same | greater
      · rw [firstSize, secondSize] at less otherTriangle
        have gap := secondCanonical.gap firstCanonical less
        rw [firstSize]
        linarith
      · rcases abs_eq_abs.mp same with equal | rfl
        · exact absurd equal different
        · rw [show -second - second = -(2 * second) by ring, abs_neg, abs_neg, abs_mul, abs_two]
          linarith [abs_nonneg second]
      · rw [firstSize, secondSize] at greater triangle
        have gap := firstCanonical.gap secondCanonical greater
        rw [firstSize]
        linarith

/-! ## Coordinates that are close to a whole number -/

/-- The tolerance is about one billionth, also after a rounding. -/
theorem wholeTolerance_bounds : 0 < wholeTolerance ∧ wholeTolerance ≤ 1 / 4 ∧
    wholeTolerance * (1 + 1 / 2 ^ 53) ≤ 1 / 999999999 := by
  decide +kernel

/-- How far from a whole number a coordinate of the given size may be. -/
theorem tolerance_close {size : Rat} (nonneg : 0 ≤ size) :
    wholeTolerance * size * (1 - 1 / 2 ^ 53) ≤ roundBinary (wholeTolerance * size) ∧
      roundBinary (wholeTolerance * size) ≤ wholeTolerance * size * (1 + 1 / 2 ^ 53) := by
  have close := roundBinary_close (wholeTolerance * size)
  rw [abs_of_nonneg (mul_nonneg wholeTolerance_bounds.1.le nonneg)] at close
  obtain ⟨low, high⟩ := abs_le.mp close
  constructor <;> linarith

theorem closeToWhole_iff {value : Rat} {whole : Int} : closeToWhole value whole ↔
    value = whole ∨ |value - whole| ≤ roundBinary (wholeTolerance * |(whole : Rat)|) ∨
      |value - whole| ≤ roundBinary (wholeTolerance * |value|) := by
  simp only [closeToWhole, magnitude_eq, Bool.or_eq_true, decide_eq_true_iff, abs_eq_zero,
    sub_eq_zero, or_assoc]

/-- What counts as whole is off by no more than about one billionth. -/
theorem abs_sub_le_of_closeToWhole {value : Rat} {whole : Int} (close : closeToWhole value whole) :
    |value - whole| ≤ |value| / 999999998 := by
  have size : |(whole : Rat)| ≤ |value| + |value - whole| := by
    have triangle := abs_sub_abs_le_abs_sub (whole : Rat) value
    rw [abs_sub_comm] at triangle
    linarith
  have bound : ∀ {other : Rat}, |other| ≤ |value| + |value - whole| →
      |value - whole| ≤ roundBinary (wholeTolerance * |other|) →
      |value - whole| ≤ |value| / 999999998 := by
    intro other smaller within
    have rounded := (tolerance_close (abs_nonneg other)).2
    have small := mul_le_mul_of_nonneg_right wholeTolerance_bounds.2.2 (abs_nonneg other)
    linarith
  rcases closeToWhole_iff.mp close with same | within | within
  · rw [same, sub_self, abs_zero]
    positivity
  · exact bound size within
  · exact bound (le_add_of_nonneg_right (abs_nonneg _)) within

/-- A number between a whole number and a number that counts as this one counts as it too.
It may have a smaller tolerance, but the distance gets smaller faster. -/
theorem closeToWhole_of_between {outer inner : Rat} {whole : Int}
    (outerRepresentable : IsRepresentable outer) (innerRepresentable : IsRepresentable inner)
    (between : |outer - whole| = |outer - inner| + |inner - whole|)
    (close : closeToWhole outer whole) : closeToWhole inner whole := by
  have nonneg := abs_nonneg (outer - inner)
  by_contra notClose
  have different : outer ≠ inner := fun same => notClose (same ▸ close)
  rw [closeToWhole_iff, not_or, not_or, not_le, not_le] at notClose
  obtain ⟨-, beyondWhole, beyond⟩ := notClose
  rcases closeToWhole_iff.mp close with same | within | within
  · rw [same, sub_self, abs_zero] at between
    have apart := abs_pos.mpr (sub_ne_zero.mpr (same ▸ different))
    linarith [abs_nonneg (inner - whole)]
  · linarith
  · have outerSize := abs_le_of_ne outerRepresentable innerRepresentable different
    have innerSize := abs_le_of_ne innerRepresentable outerRepresentable different.symm
    rw [abs_sub_comm] at innerSize
    have growth := abs_sub_abs_le_abs_sub outer inner
    have outerTolerance := (tolerance_close (abs_nonneg outer)).2
    have innerTolerance := (tolerance_close (abs_nonneg inner)).1
    have apart : |outer - inner| < wholeTolerance * (|outer| - |inner| +
        (|outer| + |inner|) / 2 ^ 53) := by linarith
    have slow : wholeTolerance * (|outer| - |inner| + (|outer| + |inner|) / 2 ^ 53) ≤
        wholeTolerance * (3 * |outer - inner|) :=
      mul_le_mul_of_nonneg_left (by linarith) wholeTolerance_bounds.1.le
    have few := mul_le_mul_of_nonneg_right wholeTolerance_bounds.2.1
      (by positivity : 0 ≤ 3 * |outer - inner|)
    linarith

/-- From a number that counts as whole all numbers up to the whole one count as it. -/
theorem closeToWhole_inward {outer inner : Rat} (outerRepresentable : IsRepresentable outer)
    (innerRepresentable : IsRepresentable inner)
    (close : closeToWhole outer (roundHalfEven outer))
    (inward : outer ≤ inner ∧ inner ≤ roundHalfEven outer ∨
      roundHalfEven outer ≤ inner ∧ inner ≤ outer) :
    closeToWhole inner (roundHalfEven inner) := by
  have fixed := roundHalfEven_intCast (roundHalfEven outer)
  rcases inward with ⟨above, below⟩ | ⟨above, below⟩
  · have same : roundHalfEven inner = roundHalfEven outer :=
      le_antisymm ((roundHalfEven_mono below).trans_eq fixed) (roundHalfEven_mono above)
    rw [same]
    refine closeToWhole_of_between outerRepresentable innerRepresentable ?_ close
    rw [abs_of_nonpos (by linarith), abs_of_nonpos (by linarith), abs_of_nonpos (by linarith)]
    ring
  · have same : roundHalfEven inner = roundHalfEven outer :=
      le_antisymm (roundHalfEven_mono below) (fixed.symm.trans_le (roundHalfEven_mono above))
    rw [same]
    refine closeToWhole_of_between outerRepresentable innerRepresentable ?_ close
    rw [abs_of_nonneg (by linarith), abs_of_nonneg (by linarith), abs_of_nonneg (by linarith)]
    ring

/-! ## Thousandths -/

theorem roundHalfEven_nonneg {value : Rat} (nonneg : 0 ≤ value) : 0 ≤ roundHalfEven value := by
  rw [← roundHalfEven_intCast 0]
  exact roundHalfEven_mono nonneg

namespace Literal

theorem thousandths_eq (value : Rat) :
    ((scaledRound 3 (magnitude value)).toNat : Rat) = roundHalfEven (|value| * 1000) := by
  have nonneg : 0 ≤ roundHalfEven (|value| * 1000) := by
    exact roundHalfEven_nonneg (by positivity)
  have scaled : scaledRound 3 (magnitude value) = roundHalfEven (|value| * 1000) := by
    rw [magnitude_eq]
    rfl
  rw [scaled, ← Int.cast_natCast, Int.toNat_of_nonneg nonneg]

theorem ofPlaces_value (value : Rat) : (ofPlaces value).value =
    if value < 0 then -(roundHalfEven (|value| * 1000) / 1000 : Rat)
    else roundHalfEven (|value| * 1000) / 1000 := by
  rw [Literal.value, ofPlaces, ofThousandths_size, thousandths_eq]
  by_cases negative : value < 0 <;> simp [ofThousandths, negative]

theorem ofPlaces_close (value : Rat) : |(ofPlaces value).value - value| ≤ 1 / 2000 := by
  obtain ⟨low, high⟩ := roundHalfEven_close (|value| * 1000)
  rw [ofPlaces_value, abs_le]
  split
  · next negative =>
    rw [abs_of_neg negative] at low high ⊢
    constructor <;> linarith
  · next nonneg =>
    rw [abs_of_nonneg (not_lt.mp nonneg)] at low high ⊢
    constructor <;> linarith

theorem ofPlaces_mono {first second : Rat} (ordered : first ≤ second) :
    (ofPlaces first).value ≤ (ofPlaces second).value := by
  have grows : ∀ low high : Rat, |low| ≤ |high| →
      (roundHalfEven (|low| * 1000) : Rat) ≤ roundHalfEven (|high| * 1000) := fun _ _ less =>
    Int.cast_le.mpr (roundHalfEven_mono (mul_le_mul_of_nonneg_right less (by norm_num)))
  have nonneg : ∀ value : Rat, (0 : Rat) ≤ roundHalfEven (|value| * 1000) := fun value =>
    Int.cast_nonneg (roundHalfEven_nonneg (by positivity))
  rw [ofPlaces_value, ofPlaces_value]
  split_ifs with firstNegative secondNegative secondNegative
  · have closer := grows second first <| by
      rw [abs_of_neg firstNegative, abs_of_neg secondNegative]
      exact neg_le_neg ordered
    linarith
  · linarith [nonneg first, nonneg second]
  · exact absurd (ordered.trans_lt secondNegative) firstNegative
  · have further := grows first second <| by
      rwa [abs_of_nonneg (not_lt.mp firstNegative), abs_of_nonneg (not_lt.mp secondNegative)]
    linarith

theorem ofPlaces_intCast (count : Int) : (ofPlaces count).value = count := by
  have whole : roundHalfEven (|(count : Rat)| * 1000) = |count| * 1000 := by
    rw [← roundHalfEven_intCast (|count| * 1000)]
    push_cast
    rfl
  rw [ofPlaces_value, whole]
  push_cast
  rw [mul_div_cancel_right₀ _ (by norm_num)]
  split
  · next negative => rw [abs_of_neg negative, neg_neg]
  · next nonneg => rw [abs_of_nonneg (not_lt.mp nonneg)]

/-- Three places show nothing of a value if it is at most half a thousandth. -/
theorem ofPlaces_value_eq_zero {value : Rat} : (ofPlaces value).value = 0 ↔ |value| ≤ 1 / 2000 := by
  constructor
  · intro zero
    have close := ofPlaces_close value
    rwa [zero, zero_sub, abs_neg] at close
  · intro small
    have zero : roundHalfEven (|value| * 1000) = 0 := by
      refine le_antisymm ?_ (roundHalfEven_nonneg (by positivity))
      have half : roundHalfEven (1 / 2) = 0 := by decide +kernel
      rw [← half]
      exact roundHalfEven_mono (by linarith)
    rw [ofPlaces_value, zero]
    simp

/-! ## Written coordinates -/

/-- The decimal of a coordinate is off by at most half a thousandth, or it is a nearest whole
number that is off by at most about one billionth of the coordinate. -/
theorem ofCoordinate_close (value : Rat) :
    |(ofCoordinate value).value - value| ≤ 1 / 2000 ∨
      (ofCoordinate value).value = roundHalfEven value ∧
        |(ofCoordinate value).value - value| ≤ min (1 / 2) (|value| / 999999998) := by
  rw [ofCoordinate]
  split
  · next close =>
    obtain ⟨low, high⟩ := roundHalfEven_close value
    rw [ofInt_value]
    refine .inr ⟨rfl, le_min (abs_le.mpr ⟨by linarith, by linarith⟩) ?_⟩
    rw [abs_sub_comm]
    exact abs_sub_le_of_closeToWhole close
  · exact .inl (ofPlaces_close value)

/-- The decimals of two numbers are in the order of the numbers.  A whole number could only be
on the wrong side of a decimal with places if this were between the whole number and the
other coordinate, and then both would be written as the whole number. -/
theorem ofCoordinate_mono {first second : Rat} (firstRepresentable : IsRepresentable first)
    (secondRepresentable : IsRepresentable second) (ordered : first ≤ second) :
    (ofCoordinate first).value ≤ (ofCoordinate second).value := by
  rw [ofCoordinate, ofCoordinate]
  split_ifs with firstClose secondClose secondClose
  · rw [ofInt_value, ofInt_value]
    exact Int.cast_le.mpr (roundHalfEven_mono ordered)
  · have above : (roundHalfEven first : Rat) ≤ second := by
      by_contra below
      exact secondClose <| closeToWhole_inward firstRepresentable secondRepresentable firstClose
        (.inl ⟨ordered, (not_le.mp below).le⟩)
    rw [ofInt_value, ← ofPlaces_intCast]
    exact ofPlaces_mono above
  · have below : first ≤ (roundHalfEven second : Rat) := by
      by_contra above
      exact firstClose <| closeToWhole_inward secondRepresentable firstRepresentable secondClose
        (.inr ⟨(not_le.mp above).le, ordered⟩)
    rw [ofInt_value, ← ofPlaces_intCast (roundHalfEven second)]
    exact ofPlaces_mono below
  · exact ofPlaces_mono ordered

/-- A minus in front of a zero is written for negative coordinates of at most half a
thousandth, and only for them. -/
theorem ofCoordinate_isNegativeZero_iff {value : Rat} :
    (ofCoordinate value).IsNegativeZero ↔ value < 0 ∧ -(1 / 2000) ≤ value := by
  rw [ofCoordinate]
  split
  · next close =>
    constructor
    · rintro ⟨negative, zero⟩
      rw [ofInt_value, Int.cast_eq_zero] at zero
      simp [ofInt, zero] at negative
    · rintro ⟨negative, small⟩
      have far := abs_sub_le_of_closeToWhole close
      obtain ⟨low, high⟩ := roundHalfEven_close value
      have above : -1 < roundHalfEven value := by
        exact_mod_cast (by linarith : (-1 : Rat) < roundHalfEven value)
      have below : roundHalfEven value < 1 := by
        exact_mod_cast (by linarith : (roundHalfEven value : Rat) < 1)
      have zero : roundHalfEven value = 0 := by omega
      rw [zero, Int.cast_zero, sub_zero, abs_of_neg negative] at far
      linarith
  · rw [IsNegativeZero, ofPlaces_value_eq_zero]
    simp only [ofPlaces, ofThousandths, decide_eq_true_iff]
    refine and_congr_right fun negative => ?_
    rw [abs_of_neg negative, neg_le]

end Literal

end Number

end Schematic
