/-!
# Paths

A path is a list of names, from the current directory or from the root.  Empty
names and single points between slashes do not count; two points are kept, as
they lead to the directory around.
-/

namespace Schematic

namespace Storage

/-- Where a path begins. -/
inductive Anchor where
  /-- At the current directory. -/
  | here
  | root
  /-- At the root, written with two slashes. -/
  | doubleRoot
deriving DecidableEq, Repr

/-- A path. -/
structure Path where
  anchor : Anchor
  names : List String
deriving DecidableEq, Repr

namespace Path

def splitAtSlashes (text : List Char) : List (List Char) :=
  text.foldr (fun char parts =>
    if char == '/' then [] :: parts
    else match parts with
      | part :: others => (char :: part) :: others
      | [] => [[char]]) [[]]

/-- The beginning of a path with the given text. -/
def anchorOf (text : List Char) : Anchor :=
  match (text.takeWhile (· == '/')).length with
  | 0 => .here
  | 2 => .doubleRoot
  | _ => .root

def ofText (text : String) : Path where
  anchor := anchorOf text.toList
  names := ((splitAtSlashes text.toList).map String.ofList).filter fun name =>
    name != "" && name != "."

def text (path : Path) : String :=
  let names := "/".intercalate path.names
  match path.anchor with
  | .root => "/" ++ names
  | .doubleRoot => "//" ++ names
  | .here => if path.names.isEmpty then "." else names

/-- Whether a path has the one character that no file is found with. -/
def hasNull (path : Path) : Bool :=
  path.names.any fun name => name.toList.contains '\x00'

end Path

end Storage

end Schematic
