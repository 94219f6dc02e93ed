import Mathlib.Algebra.Order.Field.Rat
import Mathlib.Data.List.DropRight
import Mathlib.Tactic.IntervalCases
import Mathlib.Tactic.Ring
import Schematic.Number.Decimal

/-!
# Plain decimals

A plain decimal is a sign, digits, and perhaps a point with more digits behind
it.  This file reads such texts, says when one is as short as possible, and
proves that zeros at the end of the places are dropped without a change of the
value.
-/

namespace Schematic

namespace Number

/-- A plain decimal in its parts. -/
structure Literal where
  negative : Bool
  /-- The digits in front of the point. -/
  whole : List Char
  /-- The digits behind the point.  Without them there is no point. -/
  places : List Char
deriving DecidableEq, Repr

namespace Literal

/-- Reads digits with or without a point between them. -/
def unsigned? (negative : Bool) (text : List Char) : Option Literal :=
  let whole := text.takeWhile Char.isDigit
  match text.dropWhile Char.isDigit with
  | [] => if whole = [] then none else some ⟨negative, whole, []⟩
  | '.' :: places =>
      if whole ≠ [] ∧ places ≠ [] ∧ places.all Char.isDigit then some ⟨negative, whole, places⟩
      else none
  | _ => none

/-- Reads a plain decimal, to its end. -/
def read? : List Char → Option Literal
  | '-' :: text => unsigned? true text
  | text => unsigned? false text

/-- The fraction that the digits behind a point stand for. -/
def fraction (places : List Char) : Rat :=
  (Nat.ofDigitChars 10 places 0 : Rat) / 10 ^ places.length

/-- The number without its sign. -/
def size (literal : Literal) : Rat :=
  (Nat.ofDigitChars 10 literal.whole 0 : Rat) + fraction literal.places

/-- The number that a plain decimal stands for. -/
def value (literal : Literal) : Rat :=
  if literal.negative then -literal.size else literal.size

/-- No zero in front of other digits of the whole part, and none at the end of the
places. -/
structure IsShort (literal : Literal) : Prop where
  whole : literal.whole = ['0'] ∨ literal.whole.head? ≠ some '0'
  places : literal.places.getLast? ≠ some '0'

/-- A zero with a minus. -/
def IsNegativeZero (literal : Literal) : Prop :=
  literal.negative = true ∧ literal.value = 0

/-! ## Writing -/

/-- The digits of a plain decimal with its point. -/
def digits (literal : Literal) : List Char :=
  literal.whole ++ (if literal.places = [] then [] else '.' :: literal.places)

def text (literal : Literal) : List Char :=
  if literal.negative then '-' :: literal.digits else literal.digits

/-- Digits in front of the point, and nothing but digits behind it. -/
structure IsPlain (literal : Literal) : Prop where
  nonempty : literal.whole ≠ []
  whole : ∀ char ∈ literal.whole, char.isDigit = true
  places : ∀ char ∈ literal.places, char.isDigit = true

variable {literal : Literal}

theorem unsigned?_digits (plain : literal.IsPlain) :
    unsigned? literal.negative literal.digits = some literal := by
  obtain ⟨negative, whole, places⟩ := literal
  obtain ⟨nonempty, wholeDigits, placesDigits⟩ := plain
  have point : Char.isDigit '.' = false := by decide
  dsimp only at nonempty wholeDigits placesDigits
  rw [unsigned?, digits, List.takeWhile_append_of_pos wholeDigits,
    List.dropWhile_append_of_pos wholeDigits]
  by_cases none : places = []
  · simp [none, nonempty]
  · simp [none, nonempty, point, List.all_eq_true.mpr placesDigits]

theorem read?_text (plain : literal.IsPlain) : read? literal.text = some literal := by
  have unsigned := unsigned?_digits plain
  cases isNegative : literal.negative with
  | true =>
      rw [text, if_pos isNegative, read?, ← isNegative, unsigned]
  | false =>
      obtain ⟨first, rest, same⟩ := List.exists_cons_of_ne_nil plain.nonempty
      have digit := plain.whole first (same ▸ List.mem_cons_self)
      have noSign : first ≠ '-' := by
        rintro rfl
        exact absurd digit (by decide)
      rw [isNegative, digits, same] at unsigned
      rw [text, isNegative, if_neg Bool.false_ne_true, digits, same, List.cons_append] at *
      rw [read?, unsigned]
      exact fun _ isSign => noSign (List.cons.inj isSign).1

/-! ## Digits of numbers -/

theorem head?_toDigits {count : Nat} (positive : 0 < count) :
    (Nat.toDigits 10 count).head? ≠ some '0' := by
  induction count using Nat.strongRecOn with
  | ind count ih =>
      rcases Nat.lt_or_ge count 10 with small | large
      · rw [Nat.toDigits_of_lt_base small]
        interval_cases count <;> decide
      · rw [Nat.toDigits_of_base_le (by decide) large,
          List.head?_append_of_ne_nil _ Nat.toDigits_ne_nil]
        exact ih (count / 10) (by omega) (by omega)

/-- A whole number as a plain decimal. -/
def ofInt (count : Int) : Literal :=
  ⟨decide (count < 0), Nat.toDigits 10 count.natAbs, []⟩

theorem ofInt_text (count : Int) : (ofInt count).text = (toString count).toList := by
  cases count with
  | ofNat count =>
      have written : toString (Int.ofNat count) = toString count := rfl
      rw [written, Nat.toString_eq_ofList_toDigits]
      simp [ofInt, text, digits]
  | negSucc count =>
      have written : toString (Int.negSucc count) = "-" ++ toString (count + 1) := rfl
      rw [written, Nat.toString_eq_ofList_toDigits]
      simp [ofInt, text, digits]

theorem isDigit_toDigits {count : Nat} :
    ∀ char ∈ Nat.toDigits 10 count, char.isDigit = true :=
  fun _ => Nat.isDigit_of_mem_toDigits (by decide) (by decide)

theorem ofInt_isPlain (count : Int) : (ofInt count).IsPlain :=
  ⟨Nat.toDigits_ne_nil, isDigit_toDigits, nofun⟩

theorem toDigits_isShort (count : Nat) :
    Nat.toDigits 10 count = ['0'] ∨ (Nat.toDigits 10 count).head? ≠ some '0' := by
  rcases Nat.eq_zero_or_pos count with rfl | positive
  · exact .inl rfl
  · exact .inr (head?_toDigits positive)

theorem ofInt_isShort (count : Int) : (ofInt count).IsShort :=
  ⟨toDigits_isShort _, nofun⟩

theorem fraction_nil : fraction [] = 0 := by
  rw [fraction, Nat.ofDigitChars_nil, Nat.cast_zero, zero_div]

theorem ofInt_value (count : Int) : (ofInt count).value = count := by
  have size : (ofInt count).size = (count.natAbs : Rat) := by
    simp [Literal.size, ofInt, fraction_nil]
  rw [value, size, Nat.cast_natAbs, Int.cast_abs]
  by_cases negative : count < 0
  · have below : (count : Rat) < 0 := Int.cast_lt_zero.mpr negative
    simp [ofInt, negative, abs_of_neg below]
  · have above : (0 : Rat) ≤ count := Int.cast_nonneg (not_lt.mp negative)
    simp [ofInt, negative, abs_of_nonneg above]

/-! ## Dropping zeros -/

/-- What is dropped from the end of a text are copies of one character. -/
theorem exists_dropTrailing (char : Char) (text : List Char) :
    ∃ count, text = dropTrailing char text ++ List.replicate count char := by
  have all : ∀ other ∈ text.rtakeWhile (· == char), other = char := fun _ isLast =>
    eq_of_beq (List.mem_rtakeWhile_imp (p := (· == char)) isLast)
  refine ⟨(text.rtakeWhile (· == char)).length, ?_⟩
  rw [← List.eq_replicate_of_mem all]
  exact List.rdropWhile_append_rtakeWhile.symm

theorem getLast?_dropTrailing (char : Char) (text : List Char) :
    (dropTrailing char text).getLast? ≠ some char := by
  intro isLast
  have nonempty : dropTrailing char text ≠ [] := by
    rintro none
    rw [none] at isLast
    cases isLast
  rw [List.getLast?_eq_some_getLast nonempty, Option.some_inj] at isLast
  exact List.rdropWhile_last_not (· == char) text nonempty (beq_iff_eq.mpr isLast)

/-- Nothing is dropped in front of another character. -/
theorem dropTrailing_append {char first : Char} (different : first ≠ char)
    (front rest : List Char) :
    dropTrailing char (front ++ first :: rest) = front ++ first :: dropTrailing char rest := by
  induction rest using List.reverseRecOn with
  | nil =>
      have kept : dropTrailing char (front ++ [first]) = front ++ [first] :=
        List.rdropWhile_concat_neg (· == char) front first (by simpa using different)
      rw [kept]
      rfl
  | append_singleton rest last ih =>
      have split := fun text => List.rdropWhile_concat (· == char) text last
      have whole : front ++ first :: (rest ++ [last]) = (front ++ first :: rest) ++ [last] := by simp
      change List.rdropWhile (· == char) _ = front ++ first :: List.rdropWhile (· == char) _
      rw [whole, split, split]
      split_ifs
      · exact ih
      · simp

theorem fraction_append_zeros (places : List Char) (count : Nat) :
    fraction (places ++ List.replicate count '0') = fraction places := by
  have ten : (10 : Rat) ^ count ≠ 0 := by positivity
  rw [fraction, fraction, Nat.ofDigitChars_append, Nat.ofDigitChars_replicate_zero,
    List.length_append, List.length_replicate, pow_add, Nat.cast_mul, Nat.cast_pow, mul_comm,
    Nat.cast_ofNat, mul_div_mul_right _ _ ten]

theorem fraction_dropTrailing (places : List Char) :
    fraction (dropTrailing '0' places) = fraction places := by
  obtain ⟨count, same⟩ := exists_dropTrailing '0' places
  rw [← fraction_append_zeros (dropTrailing '0' places) count, ← same]

/-! ## Three places -/

/-- The three digits of a number of thousandths below one. -/
def threeDigits (count : Nat) : List Char :=
  List.replicate (3 - (Nat.toDigits 10 count).length) '0' ++ Nat.toDigits 10 count

theorem isDigit_threeDigits {count : Nat} : ∀ char ∈ threeDigits count, char.isDigit = true := by
  intro char isDigit
  rcases List.mem_append.mp isDigit with isZero | isDigit
  · rw [List.eq_of_mem_replicate isZero]
    rfl
  · exact isDigit_toDigits char isDigit

theorem fraction_threeDigits {count : Nat} (below : count < 1000) :
    fraction (threeDigits count) = (count : Rat) / 1000 := by
  have short : (Nat.toDigits 10 count).length ≤ 3 :=
    (Nat.length_toDigits_le_iff (by decide) (by decide)).mpr below
  have long : (threeDigits count).length = 3 := by
    rw [threeDigits, List.length_append, List.length_replicate]
    omega
  have number : Nat.ofDigitChars 10 (threeDigits count) 0 = count := by
    rw [threeDigits, Nat.ofDigitChars_append, Nat.ofDigitChars_replicate_zero, Nat.mul_zero,
      Nat.ofDigitChars_toDigits (by decide) (by decide)]
  rw [fraction, number, long]
  norm_num

/-- A number of thousandths as a plain decimal. -/
def ofThousandths (negative : Bool) (count : Nat) : Literal :=
  ⟨negative, Nat.toDigits 10 (count / 1000), dropTrailing '0' (threeDigits (count % 1000))⟩

variable (negative : Bool) (count : Nat)

theorem ofThousandths_isShort : (ofThousandths negative count).IsShort :=
  ⟨toDigits_isShort _, getLast?_dropTrailing _ _⟩

theorem ofThousandths_isPlain : (ofThousandths negative count).IsPlain where
  nonempty := Nat.toDigits_ne_nil
  whole := isDigit_toDigits
  places char isPlace := by
    obtain ⟨zeros, same⟩ := exists_dropTrailing '0' (threeDigits (count % 1000))
    exact isDigit_threeDigits char (same ▸ List.mem_append_left _ isPlace)

theorem ofThousandths_size : (ofThousandths negative count).size = (count : Rat) / 1000 := by
  have below : count % 1000 < 1000 := Nat.mod_lt count (by decide)
  have parts : (1000 * (count / 1000 : Nat) + (count % 1000 : Nat) : Rat) = count := by
    exact_mod_cast Nat.div_add_mod count 1000
  rw [size, ofThousandths, fraction_dropTrailing, fraction_threeDigits below,
    Nat.ofDigitChars_toDigits (by decide) (by decide), ← parts]
  ring

/-- A point is kept only if there are digits behind it. -/
theorem dropTrailing_point {front places : List Char} (noPoint : front.getLast? ≠ some '.')
    (digits : ∀ char ∈ places, char.isDigit = true) :
    dropTrailing '.' (front ++ '.' :: places) =
      front ++ (if places = [] then [] else '.' :: places) := by
  by_cases none : places = []
  · have dropped : dropTrailing '.' (front ++ ['.']) = dropTrailing '.' front :=
      List.rdropWhile_concat_pos (· == '.') front '.' rfl
    rw [none, dropped, if_pos rfl, List.append_nil]
    refine List.rdropWhile_eq_self_iff.mpr fun nonempty isPoint => noPoint ?_
    rw [List.getLast?_eq_some_getLast nonempty, eq_of_beq isPoint]
  · rw [if_neg none]
    refine List.rdropWhile_eq_self_iff.mpr fun nonempty isPoint => ?_
    rw [List.getLast_append_of_ne_nil _ (List.cons_ne_nil _ _), List.getLast_cons none] at isPoint
    have digit := digits _ (List.getLast_mem none)
    rw [eq_of_beq isPoint] at digit
    exact absurd digit (by decide)

/-- The plain decimal with three places that is nearest to a value. -/
def ofPlaces (value : Rat) : Literal :=
  ofThousandths (decide (value < 0)) (scaledRound 3 (magnitude value)).toNat

theorem ofPlaces_isPlain (value : Rat) : (ofPlaces value).IsPlain :=
  ofThousandths_isPlain _ _

/-- The text with three places loses zeros and a point at its end. -/
theorem ofPlaces_text (value : Rat) :
    dropTrailing '.' (dropTrailing '0' (threePlaces value)) = (ofPlaces value).text := by
  rw [ofPlaces]
  generalize isCount : (scaledRound 3 (magnitude value)).toNat = count
  have isPlace : ∀ char ∈ dropTrailing '0' (threeDigits (count % 1000)), char.isDigit = true :=
    (ofThousandths_isPlain false count).places
  have noPoint : ∀ front, (front ++ Nat.toDigits 10 (count / 1000)).getLast? ≠ some '.' := by
    intro front isPoint
    have isDigit := isDigit_toDigits _ (List.mem_of_getLast? <|
      (List.getLast?_append_of_ne_nil front Nat.toDigits_ne_nil).symm.trans isPoint)
    exact absurd isDigit (by decide)
  have written : ∀ front,
      dropTrailing '.' (dropTrailing '0'
        (front ++ Nat.toDigits 10 (count / 1000) ++ '.' :: threeDigits (count % 1000))) =
        front ++ (ofThousandths (decide (value < 0)) count).digits := by
    intro front
    rw [dropTrailing_append (by decide), dropTrailing_point (noPoint front) isPlace,
      List.append_assoc]
    rfl
  have three : threePlaces value = (if value < 0 then ['-'] else []) ++
      Nat.toDigits 10 (count / 1000) ++ '.' :: threeDigits (count % 1000) := by
    rw [threePlaces, isCount]
    split_ifs <;> rfl
  rw [three, written, text]
  by_cases negative : value < 0 <;> simp [ofThousandths, negative]

/-! ## Coordinates -/

/-- The plain decimal that a coordinate is written as. -/
def ofCoordinate (value : Rat) : Literal :=
  if closeToWhole value (roundHalfEven value) then ofInt (roundHalfEven value)
  else ofPlaces value

theorem read?_coordinateText (value : Rat) :
    read? (coordinateText value).toList = some (ofCoordinate value) := by
  rw [coordinateText, ofCoordinate]
  split
  · rw [← ofInt_text, read?_text (ofInt_isPlain _)]
  · rw [String.toList_ofList, ofPlaces_text, read?_text (ofPlaces_isPlain _)]

theorem ofCoordinate_isShort (value : Rat) : (ofCoordinate value).IsShort := by
  rw [ofCoordinate]
  split
  · exact ofInt_isShort _
  · exact ofThousandths_isShort _ _

end Literal

end Number

end Schematic
