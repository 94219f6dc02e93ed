import Mathlib.Data.Nat.Digits.Defs
import Schematic.Proofs.Outcome
import Schematic.Yaml.Value

/-!
# Texts between double quotes

Every text of code points can be written between double quotes, with an escape of eight
digits for each code point, and is read as it was.  So halves of characters are kept,
also if one stands in front of the half that would complete it.
-/

namespace Schematic

namespace Text

/-! ## Code points -/

namespace CodePoint

/-- The number of a code point. -/
def code : CodePoint → Nat
  | .char single => single.toNat
  | .half part => part.code

theorem code_lt (point : CodePoint) : point.code < 0x110000 := by
  cases point with
  | char char =>
      rcases char.valid with low | high
      · exact Nat.lt_trans low (by decide)
      · exact high.2
  | half half =>
      have bounds := half.isHalf
      show half.code < 0x110000
      omega

end CodePoint

namespace Coded

/-- The code points of a text. -/
def points (text : Coded) : List CodePoint :=
  text.start.toList.map .char ++
    text.halves.flatMap fun half => .half half.1 :: half.2.toList.map .char

theorem parts_chars_append (chars : List Char) (points : List CodePoint) :
    parts (chars.map .char ++ points) = (chars ++ (parts points).1, (parts points).2) := by
  induction chars with
  | nil => rfl
  | cons char rest ih => rw [List.map_cons, List.cons_append, parts, ih, List.cons_append]

theorem parts_halves (halves : List (Half × String)) :
    parts (halves.flatMap fun half => .half half.1 :: half.2.toList.map .char) =
      ([], halves.map fun half => (half.1, half.2.toList)) := by
  induction halves with
  | nil => rfl
  | cons half rest ih =>
      rw [List.flatMap_cons, List.cons_append, parts, parts_chars_append, ih, List.append_nil,
        List.map_cons]

/-- A text is made of its code points. -/
theorem ofPoints_points (text : Coded) : ofPoints text.points = text := by
  obtain ⟨start, halves⟩ := text
  rw [ofPoints, points, parts_chars_append, parts_halves]
  simp [Function.comp_def]

end Coded

/-! ## Hexadecimal digits -/

theorem exists_of_mem_toDigits {number : Nat} {char : Char}
    (isDigit : char ∈ Nat.toDigits 16 number) : ∃ digit < 16, char = digit.digitChar := by
  induction number using Nat.strongRecOn with
  | ind number ih =>
      rcases Nat.lt_or_ge number 16 with small | large
      · rw [Nat.toDigits_of_lt_base small, List.mem_singleton] at isDigit
        exact ⟨number, small, isDigit⟩
      · rw [Nat.toDigits_of_base_le (by decide) large, List.mem_append,
          List.mem_singleton] at isDigit
        rcases isDigit with isEarlier | isLast
        · exact ih (number / 16) (Nat.div_lt_self (by omega) (by decide)) isEarlier
        · exact ⟨number % 16, Nat.mod_lt number (by decide), isLast⟩

theorem exists_of_mem_hexDigits {width number : Nat} {char : Char}
    (isDigit : char ∈ hexDigits width number) : ∃ digit < 16, char = digit.digitChar := by
  rcases List.mem_append.mp isDigit with isZero | isDigit
  · exact ⟨0, by decide, List.eq_of_mem_replicate isZero⟩
  · exact exists_of_mem_toDigits isDigit

theorem length_hexDigits {width number : Nat} (wide : 0 < width) (small : number < 16 ^ width) :
    (hexDigits width number).length = width := by
  have fits := (Nat.length_toDigits_le_iff (show 1 < 16 by decide) wide).mpr small
  rw [hexDigits, List.length_append, List.length_replicate]
  omega

end Text

namespace Yaml

open Text (CodePoint Coded)

theorem hexValue?_digitChar : ∀ digit < 16, hexValue? (Nat.digitChar digit) = some digit := by
  decide

theorem hexNumber?_append (digits : List Char) (last : Char) :
    hexNumber? (digits ++ [last]) =
      (hexNumber? digits).bind fun number => (16 * number + ·) <$> hexValue? last := by
  rw [hexNumber?, List.foldlM_append, hexNumber?]
  simp

theorem hexNumber?_toDigits (number : Nat) : hexNumber? (Nat.toDigits 16 number) = some number := by
  induction number using Nat.strongRecOn with
  | ind number ih =>
      rcases Nat.lt_or_ge number 16 with small | large
      · rw [Nat.toDigits_of_lt_base small]
        have last := hexNumber?_append [] (Nat.digitChar number)
        rw [List.nil_append, hexValue?_digitChar number small] at last
        rw [last]
        simp [hexNumber?]
      · rw [Nat.toDigits_of_base_le (by decide) large, hexNumber?_append,
          ih (number / 16) (Nat.div_lt_self (by omega) (by decide)),
          hexValue?_digitChar _ (Nat.mod_lt number (by decide))]
        simp
        omega

theorem hexNumber?_zeros (count : Nat) (digits : List Char) :
    hexNumber? (List.replicate count '0' ++ digits) = hexNumber? digits := by
  induction count with
  | zero => rfl
  | succ count ih =>
      rw [List.replicate_succ, List.cons_append, ← ih]
      rfl

theorem hexNumber?_hexDigits (width number : Nat) :
    hexNumber? (Text.hexDigits width number) = some number := by
  rw [Text.hexDigits, hexNumber?_zeros, hexNumber?_toDigits]

theorem codePoint_code (point : CodePoint) : codePoint point.code = .ok point := by
  cases point with
  | half half => exact dif_pos half.isHalf
  | char char =>
      have noHalf : ¬(0xd800 ≤ char.toNat ∧ char.toNat < 0xe000) := by
        have valid : char.toNat < 0xd800 ∨ 0xdfff < char.toNat ∧ char.toNat < 0x110000 :=
          char.valid
        omega
      have few : char.toNat < 0x110000 := CodePoint.code_lt (.char char)
      rw [CodePoint.code, codePoint, dif_neg noHalf, if_pos few, Char.ofNat_toNat]

/-! ## Escapes -/

theorem Cursor.rest_advance (cursor : Cursor) : cursor.advance.rest = cursor.rest.tail := by
  unfold advance
  split
  · next isEnd => rw [isEnd]; rfl
  · next isNext =>
    rw [isNext]
    split <;> rfl

theorem Cursor.rest_advanceBy (cursor : Cursor) (count : Nat) :
    (cursor.advanceBy count).rest = cursor.rest.drop count := by
  induction count generalizing cursor with
  | zero => rfl
  | succ count ih => rw [advanceBy, ih, rest_advance, List.drop_tail]

/-- The escape of a code point. -/
def escape (point : CodePoint) : List Char :=
  '\\' :: 'U' :: Text.hexDigits 8 point.code

theorem length_code (point : CodePoint) : (Text.hexDigits 8 point.code).length = 8 :=
  Text.length_hexDigits (by decide) (Nat.lt_trans point.code_lt (by decide))

theorem scanCode_hexDigits {cursor : Cursor} {point : CodePoint} {behind : List Char}
    (ahead : cursor.rest = Text.hexDigits 8 point.code ++ behind) :
    scanCode 8 cursor = .ok (point.code, cursor.advanceBy 8) := by
  have digits : cursor.rest.take 8 = Text.hexDigits 8 point.code := by
    rw [ahead, List.take_append_of_le_length (length_code point).ge,
      List.take_of_length_le (length_code point).le]
  unfold scanCode
  rw [digits]
  dsimp only
  rw [length_code, hexNumber?_hexDigits]
  rfl

/-- An escape is read as its code point. -/
theorem scanQuotedPiece_escape {cursor : Cursor} {point : CodePoint} {behind : List Char}
    (ahead : cursor.rest = escape point ++ behind) :
    ∃ next, scanQuotedPiece true cursor = .ok ([point], next) ∧ next.rest = behind := by
  have letter : cursor.advance.rest = 'U' :: (Text.hexDigits 8 point.code ++ behind) := by
    rw [Cursor.rest_advance, ahead]
    rfl
  have digits : cursor.advance.advance.rest = Text.hexDigits 8 point.code ++ behind := by
    rw [Cursor.rest_advance, letter]
    rfl
  refine ⟨cursor.advance.advance.advanceBy 8, ?_, ?_⟩
  · unfold scanQuotedPiece
    rw [ahead]
    show scanEscape cursor.advance = _
    unfold scanEscape
    rw [Cursor.peek, letter]
    show (scanCode 8 cursor.advance.advance >>= _) = _
    rw [scanCode_hexDigits digits, ok_bind]
    dsimp only
    rw [codePoint_code]
    rfl
  · rw [Cursor.rest_advanceBy, digits, List.drop_left' (length_code point)]

theorem scanQuotedPieces_escapes {steps : Nat} {cursor : Cursor} {points : List CodePoint}
    {behind : List Char} (ahead : cursor.rest = points.flatMap escape ++ '\x22' :: behind)
    (enough : points.length < steps) :
    ∃ next, scanQuotedPieces '\x22' steps cursor = .ok (points, next) ∧ next.rest = behind := by
  induction points generalizing steps cursor with
  | nil =>
      obtain ⟨steps, rfl⟩ := Nat.exists_eq_succ_of_ne_zero (Nat.ne_of_gt enough)
      have atEnd : atQuoteEnd '\x22' cursor = true := by
        rw [atQuoteEnd, ahead]
        rfl
      refine ⟨cursor.advance, ?_, ?_⟩
      · rw [scanQuotedPieces, if_pos atEnd]
        rfl
      · rw [Cursor.rest_advance, ahead]
        rfl
  | cons point points ih =>
      have positive := Nat.ne_of_gt (Nat.zero_lt_of_lt enough)
      obtain ⟨steps, rfl⟩ := Nat.exists_eq_succ_of_ne_zero positive
      rw [List.flatMap_cons, List.append_assoc] at ahead
      obtain ⟨middle, isPiece, rest⟩ := scanQuotedPiece_escape ahead
      obtain ⟨next, isRest, isBehind⟩ := ih rest (Nat.lt_of_succ_lt_succ enough)
      have notAtEnd : ¬atQuoteEnd '\x22' cursor = true := by
        rw [atQuoteEnd, ahead]
        exact Bool.false_ne_true
      refine ⟨next, ?_, isBehind⟩
      rw [scanQuotedPieces, if_neg notAtEnd]
      show (scanQuotedPiece true cursor >>= _) = _
      rw [isPiece, ok_bind]
      dsimp only
      rw [isRest]
      rfl

theorem length_le_escapes (points : List CodePoint) :
    points.length ≤ (points.flatMap escape).length := by
  induction points with
  | nil => exact Nat.zero_le _
  | cons point rest ih =>
      rw [List.flatMap_cons, List.length_append, List.length_cons, escape, List.length_cons]
      omega

/-- A text between double quotes. -/
def quotedText (text : Coded) : List Char :=
  '\x22' :: (text.points.flatMap escape ++ ['\x22'])

/-- A text between double quotes is read as it was, whatever is behind it. -/
theorem scanQuoted_quotedText {cursor : Cursor} {text : Coded} {behind : List Char}
    (ahead : cursor.rest = quotedText text ++ behind) :
    ∃ next, scanQuoted '\x22' cursor = .ok (text, next) ∧ next.rest = behind := by
  have inside : cursor.advance.rest = text.points.flatMap escape ++ '\x22' :: behind := by
    rw [Cursor.rest_advance, ahead]
    simp [quotedText]
  have enough : text.points.length < cursor.rest.length + 1 := by
    have atLeast := length_le_escapes text.points
    rw [ahead, quotedText]
    simp only [List.length_append, List.length_cons]
    omega
  obtain ⟨next, isRead, isBehind⟩ := scanQuotedPieces_escapes inside enough
  refine ⟨next, ?_, isBehind⟩
  unfold scanQuoted
  rw [isRead, ok_bind]
  dsimp only
  rw [Coded.ofPoints_points]
  rfl

/-! ## Documents of one text -/

theorem isAllowed_digitChar : ∀ digit < 16, isAllowed (Nat.digitChar digit) = true := by
  decide

theorem isAllowed_quotedText (text : Coded) : (quotedText text).all isAllowed = true := by
  have escapes : ∀ point : CodePoint, ∀ char ∈ escape point, isAllowed char = true := by
    intro point char isPart
    rw [escape] at isPart
    rcases List.mem_cons.mp isPart with rfl | isPart
    · rfl
    · rcases List.mem_cons.mp isPart with rfl | isDigit
      · rfl
      · obtain ⟨digit, small, rfl⟩ := Text.exists_of_mem_hexDigits isDigit
        exact isAllowed_digitChar digit small
  rw [List.all_eq_true]
  intro char isPart
  rcases List.mem_cons.mp isPart with rfl | isPart
  · rfl
  · rcases List.mem_append.mp isPart with isEscaped | isQuote
    · obtain ⟨point, -, isPart⟩ := List.mem_flatMap.mp isEscaped
      exact escapes point char isPart
    · rw [List.mem_singleton.mp isQuote]
      rfl

theorem Cursor.skipWhile_eq_self {cursor : Cursor} {test : Char → Bool}
    (stays : ∀ char ∈ cursor.rest.head?, test char = false) : cursor.skipWhile test = cursor := by
  have none : cursor.rest.takeWhile test = [] := by
    cases isRest : cursor.rest with
    | nil => rfl
    | cons char rest =>
        have first := stays char (by rw [isRest]; rfl)
        rw [List.takeWhile_cons_of_neg (Bool.eq_false_iff.mp first)]
  rw [skipWhile, takeWhile, none]
  rfl

/-- Nothing is skipped in front of a token, or at the end. -/
theorem Progress.skipBlanks_eq_self {progress : Progress} (steps : Nat)
    (stays : ∀ char ∈ progress.cursor.rest.head?, char ≠ ' ' ∧ char ≠ '#' ∧ isBreak char = false) :
    progress.skipBlanks (steps + 1) = progress := by
  have noSpaces : progress.cursor.skipSpaces = progress.cursor :=
    Cursor.skipWhile_eq_self fun char isFirst => beq_eq_false_iff_ne.mpr (stays char isFirst).1
  have noComment : progress.cursor.skipComment = progress.cursor := by
    refine if_neg fun atComment => ?_
    have isFirst : progress.cursor.rest.head? = some '#' := by simpa [Cursor.peek] using atComment
    exact (stays '#' isFirst).2.1 rfl
  have noBreak : progress.cursor.takeBreak? = none := by
    unfold Cursor.takeBreak?
    split
    · rfl
    · next char rest isRest =>
      have first := (stays char (by rw [isRest]; rfl)).2.2
      rw [first]
      rfl
  rw [skipBlanks, noSpaces, noComment, noBreak]

theorem Progress.unwind_eq_self {progress : Progress} (outermost : progress.outer = [])
    (column : Int) : progress.unwind column = progress := by
  obtain ⟨cursor, tokens, depth, indent, outer, keyAllowed, candidates⟩ := progress
  subst outermost
  unfold unwind
  split <;> rfl

/-- A candidate that is not required can be forgotten. -/
theorem Progress.exists_dropCandidate {progress : Progress}
    (noneRequired : ∀ entry ∈ progress.candidates, entry.2.required = false) :
    ∃ next, progress.dropCandidate = .ok next := by
  unfold dropCandidate
  split
  · next candidate isCandidate =>
    obtain ⟨before, behind, isSplit, -⟩ := List.lookup_eq_some_iff.mp isCandidate
    have notRequired := noneRequired (progress.depth, candidate) (by rw [isSplit]; simp)
    rw [if_neg (Bool.eq_false_iff.mp notRequired)]
    exact ⟨_, rfl⟩
  · exact ⟨progress, rfl⟩

/-- In front of a token outside of all blocks only old candidates are forgotten. -/
theorem Progress.approach_eq {progress : Progress}
    (stays : ∀ char ∈ progress.cursor.rest.head?,
      char ≠ ' ' ∧ char ≠ '#' ∧ isBreak char = false ∧ char ≠ '\ufeff')
    (noneRequired : ∀ entry ∈ progress.candidates, entry.2.required = false)
    (outermost : progress.outer = []) :
    progress.approach = .ok { progress with
      candidates := progress.candidates.filter fun entry => progress.fresh entry.2 } := by
  have noMark : (progress.cursor.index == 0 && progress.cursor.peek == some '\ufeff') = false := by
    rw [Bool.and_eq_false_iff, beq_eq_false_iff_ne, beq_eq_false_iff_ne]
    exact .inr fun isMark => (stays '\ufeff' isMark).2.2.2 rfl
  have noneStale : (progress.candidates.filter fun entry => !progress.fresh entry.2).any
      (fun entry => entry.2.required) = false := by
    rw [List.any_eq_false]
    intro entry isStale
    rw [noneRequired entry (List.mem_filter.mp isStale).1]
    exact Bool.false_ne_true
  have skipped := progress.skipBlanks_eq_self progress.cursor.rest.length fun char isFirst =>
    ⟨(stays char isFirst).1, (stays char isFirst).2.1, (stays char isFirst).2.2.1⟩
  unfold approach
  rw [noMark]
  rw [if_neg Bool.false_ne_true]
  show ((progress.skipBlanks (progress.cursor.rest.length + 1)).dropStale >>= _) = _
  rw [skipped, dropStale, noneStale, if_neg Bool.false_ne_true, ok_bind]
  refine congrArg Except.ok (unwind_eq_self ?_ _)
  exact outermost

theorem Cursor.rest_ofText (chars : List Char) : (ofText (String.ofList chars)).rest = chars := by
  rw [ofText, String.toList_ofList]

/-- At the beginning of a document a text between double quotes is one token. -/
theorem Progress.token_quotedText {cursor next : Cursor} {text : Coded}
    (ahead : cursor.rest.head? = some '\x22')
    (isRead : scanQuoted '\x22' cursor = .ok (text, next)) :
    ({ cursor } : Progress).token '\x22' =
      .ok { cursor := next, tokens := [.scalar text false], keyAllowed := false
            candidates := [(0, ⟨0, false, cursor⟩)] } := by
  have noMark (char : Char) (other : char ≠ '\x22') : cursor.atTriple char = false := by
    obtain ⟨behind, isRest⟩ := List.head?_eq_some_iff.mp ahead
    rw [Cursor.atTriple, isRest, List.take_succ_cons, List.cons_beq_cons,
      beq_eq_false_iff_ne.mpr other.symm]
    rfl
  have saved : ({ cursor } : Progress).saveCandidate =
      .ok { cursor, candidates := [(0, ⟨0, false, cursor⟩)] } := by
    have notRequired : ((-1 : Int) == cursor.column) = false :=
      beq_eq_false_iff_ne.mpr (by omega)
    rw [saveCandidate]
    dsimp only
    rw [notRequired]
    rfl
  have isKeyPart : ({ cursor } : Progress).token '\x22' =
      ({ cursor } : Progress).keyPart fun cursor =>
        scanQuoted '\x22' cursor >>= fun scalar => pure (.scalar scalar.1 false, scalar.2) := by
    simp only [token, noMark '-' (by decide), noMark '.' (by decide), Bool.and_false,
      Bool.false_eq_true, if_false]
    rfl
  rw [isKeyPart, keyPart, saved, ok_bind]
  dsimp only
  rw [isRead]
  rfl

/-- A text between double quotes alone is one token. -/
theorem tokenize_quotedText (text : Coded) :
    tokenize (String.ofList (quotedText text)) = ⟨[.scalar text false], none⟩ := by
  have ahead := Cursor.rest_ofText (quotedText text)
  have steps : (String.ofList (quotedText text)).length + 1 =
      (text.points.flatMap escape).length + 1 + 1 + 1 := by
    rw [String.length_ofList, quotedText, List.length_cons, List.length_append,
      List.length_singleton]
  rw [tokenize, String.toList_ofList, if_pos (isAllowed_quotedText text), steps]
  generalize Cursor.ofText (String.ofList (quotedText text)) = cursor at ahead
  have isFirst : cursor.rest.head? = some '\x22' := by
    rw [ahead]
    rfl
  have start : ({ cursor } : Progress).approach = .ok { cursor } := by
    refine Progress.approach_eq (fun char isHead => ?_) nofun rfl
    obtain rfl : '\x22' = char := Option.some.inj (isFirst.symm.trans isHead)
    decide
  obtain ⟨next, isRead, atEnd⟩ := scanQuoted_quotedText (ahead.trans (List.append_nil _).symm)
  let scalar : Progress :=
    { cursor := next, tokens := [.scalar text false], keyAllowed := false
      candidates := [(0, ⟨0, false, cursor⟩)] }
  have noHead : next.rest.head? = none := by
    rw [atEnd]
    rfl
  have noneRequired : ∀ entry ∈ scalar.candidates, entry.2.required = false := by
    intro entry isEntry
    rw [List.mem_singleton.mp isEntry]
  let remembered : Progress :=
    { scalar with candidates := scalar.candidates.filter fun entry => scalar.fresh entry.2 }
  have finish : scalar.approach = .ok remembered := by
    refine Progress.approach_eq (fun char isHead => ?_) noneRequired rfl
    cases noHead.symm.trans isHead
  obtain ⟨last, dropped⟩ : ∃ last, remembered.dropCandidate = .ok last :=
    Progress.exists_dropCandidate fun entry isEntry =>
      noneRequired entry (List.mem_filter.mp isEntry).1
  rw [Progress.tokensFrom, start]
  dsimp only
  rw [Cursor.peek, isFirst]
  dsimp only
  rw [Progress.token_quotedText isFirst isRead]
  dsimp only
  rw [Progress.tokensFrom, finish]
  dsimp only
  rw [Cursor.peek, noHead]
  dsimp only
  rw [Progress.unwind_eq_self rfl, dropped]
  rfl

/-- Every text is the value of a document. -/
theorem read_quotedText (text : Coded) : ∃ document,
    read (String.ofList (quotedText text)) = .ok (some document) ∧
      document.value? document.root = some (.atom (.text text)) := by
  have parsed : Document.ofText (String.ofList (quotedText text)) =
      .ok ⟨#[⟨.scalar .text, .scalar text⟩], some 0⟩ := by
    rw [Document.ofText, tokenize_quotedText]
    rfl
  refine ⟨⟨0, #[some (.atom (.text text))]⟩, ?_, rfl⟩
  rw [read, parsed, ok_bind]
  rfl

end Yaml

end Schematic
