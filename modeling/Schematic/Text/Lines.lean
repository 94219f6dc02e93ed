/-!
# Lines of a text

A line ends at any of the characters that Unicode lets end a line or separate
records; a carriage return and the line feed behind it end one line together.
This file splits a text into its lines, removes characters at the end of a
text, and joins lines.
-/

namespace Schematic

namespace Text

def isLineEnd (char : Char) : Bool :=
  char == '\n' || char == '\r' || char == '\x0b' || char == '\x0c' ||
    char == '\x1c' || char == '\x1d' || char == '\x1e' || char == '\u0085' ||
    char == '\u2028' || char == '\u2029'

/-- The lines of a text behind the start `line` of its first line, which is
held in reverse. -/
def linesFrom (line : List Char) : List Char → List (List Char)
  | [] => if line.isEmpty then [] else [line.reverse]
  | '\r' :: '\n' :: rest => line.reverse :: linesFrom [] rest
  | char :: rest =>
      if isLineEnd char then line.reverse :: linesFrom [] rest
      else linesFrom (char :: line) rest

/-- The lines of a text without the characters that end them.  A line end at
the end of the text starts no further line. -/
def lines (text : String) : List String :=
  (linesFrom [] text.toList).map String.ofList

/-- Puts two spaces in front of every line of a text. -/
def indentedLines (text : String) : List String :=
  (lines text).map ("  " ++ ·)

def joinLines (rows : List String) : String :=
  "\n".intercalate rows

def isBlank (char : Char) : Bool :=
  let code := char.toNat
  (0x09 ≤ code && code ≤ 0x0d) || (0x1c ≤ code && code ≤ 0x20) || code == 0x85 ||
    code == 0xa0 || code == 0x1680 || (0x2000 ≤ code && code ≤ 0x200a) ||
    code == 0x2028 || code == 0x2029 || code == 0x202f || code == 0x205f ||
    code == 0x3000

/-- Drops the characters at the end of a text that satisfy a test. -/
def dropTrailing (test : Char → Bool) (text : String) : String :=
  String.ofList (text.toList.reverse.dropWhile test).reverse

/-- A text without the white space at its end. -/
def trimmedEnd (text : String) : String :=
  dropTrailing isBlank text

/-- A text without the carriage returns and line feeds at its end. -/
def withoutLineFeeds (text : String) : String :=
  dropTrailing (fun char => char == '\n' || char == '\r') text

end Text

end Schematic
