import Schematic.Text.Quoted

/-!
# Texts of code points

Some code points are halves of characters, and no characters of their own.  A
document can name them in escapes, so that its texts are sequences of code
points.  A text with halves is handled like any other, but it has no encoding
and is never written to a file; where it is only shown, an escape stands for
each half.
-/

namespace Schematic

namespace Text

/-- A code point that is half of a character. -/
structure Half where
  code : Nat
  isHalf : 0xd800 ≤ code ∧ code < 0xe000
deriving DecidableEq, Repr

/-- The escape that stands for a half where it is shown. -/
def Half.escape (half : Half) : String :=
  String.ofList (backslash :: 'u' :: hexDigits 4 half.code)

/-- A character, or half of one. -/
inductive CodePoint where
  | char (char : Char)
  | half (half : Half)
deriving DecidableEq, Repr

/-- A text of code points: the characters in front of the first half, and every
half with the characters behind it. -/
structure Coded where
  start : String
  halves : List (Half × String)
deriving DecidableEq, Repr, Inhabited

namespace Coded

def ofText (text : String) : Coded :=
  ⟨text, []⟩

instance : Coe String Coded := ⟨ofText⟩

@[simp] theorem ofText_inj {first second : String} :
    ofText first = ofText second ↔ first = second := by
  simp [ofText]

/-- Parts code points into the characters in front of the first half, and the
halves with the characters behind each. -/
def parts : List CodePoint → List Char × List (Half × List Char)
  | [] => ([], [])
  | point :: rest =>
      let (chars, halves) := parts rest
      match point with
      | .char char => (char :: chars, halves)
      | .half half => ([], (half, chars) :: halves)

def ofPoints (points : List CodePoint) : Coded :=
  let (chars, halves) := parts points
  ⟨String.ofList chars, halves.map fun (half, chars) => (half, String.ofList chars)⟩

/-- The text as characters, if it has no halves. -/
def whole? (text : Coded) : Option String :=
  if text.halves.isEmpty then some text.start else none

@[simp] theorem whole?_ofText (text : String) : (ofText text).whole? = some text :=
  rfl

theorem whole?_eq_some_iff {text : Coded} {content : String} :
    text.whole? = some content ↔ text = ofText content := by
  obtain ⟨start, _ | ⟨half, halves⟩⟩ := text <;> simp [whole?, ofText]

def isEmpty (text : Coded) : Bool :=
  text.start.isEmpty && text.halves.isEmpty

theorem isEmpty_iff {text : Coded} : text.isEmpty = true ↔ text = ofText "" := by
  obtain ⟨start, _ | ⟨half, halves⟩⟩ := text <;> simp [isEmpty, ofText]

def map (change : String → String) (text : Coded) : Coded :=
  ⟨change text.start, text.halves.map fun (half, chars) => (half, change chars)⟩

def shown (text : Coded) : String :=
  text.start ++ String.join (text.halves.map fun (half, chars) => half.escape ++ chars)

@[simp] theorem shown_ofText (text : String) : (ofText text).shown = text := by
  simp [shown, ofText]

/-- The text with the sign for an unknown character in the place of each half. -/
def replaced (text : Coded) : String :=
  text.start ++ String.join (text.halves.map fun (_, chars) => "\ufffd" ++ chars)

/-- The code points of a text by their numbers. -/
def codes (text : Coded) : List Nat :=
  text.start.toList.map Char.toNat ++
    text.halves.flatMap fun (half, chars) => half.code :: chars.toList.map Char.toNat

/-- Texts are in the order of their code points. -/
instance : LT Coded := ⟨fun first second => List.lt first.codes second.codes⟩

instance : LE Coded := ⟨fun first second => List.le first.codes second.codes⟩

instance : DecidableLT Coded :=
  fun first second => List.decidableLT first.codes second.codes

instance : DecidableLE Coded :=
  fun first second => List.decidableLE first.codes second.codes

theorem le_refl (text : Coded) : text ≤ text :=
  List.le_refl text.codes

theorem le_trans {first second third : Coded} (before : first ≤ second) (after : second ≤ third) :
    first ≤ third :=
  List.le_trans (show List.le first.codes second.codes from before) after

theorem le_total (first second : Coded) : first ≤ second ∨ second ≤ first :=
  List.le_total first.codes second.codes

/-- Some characters, and the halves behind them, with a text at the end. -/
def appendFrom (text : Coded) (start : String) : List (Half × String) → Coded
  | [] => ⟨start ++ text.start, text.halves⟩
  | (half, chars) :: rest =>
      let behind := appendFrom text chars rest
      ⟨start, (half, behind.start) :: behind.halves⟩

instance : Append Coded := ⟨fun first second => appendFrom second first.start first.halves⟩

theorem whole?_append (text : Coded) (behind : String) :
    (text ++ ofText behind).whole? = text.whole?.map (· ++ behind) := by
  obtain ⟨start, _ | ⟨half, halves⟩⟩ := text <;> rfl

def join (texts : List Coded) : Coded :=
  texts.foldr (· ++ ·) ""

end Coded

end Text

end Schematic
