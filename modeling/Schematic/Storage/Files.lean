import Schematic.Storage.Path
import Schematic.Text.Coded

/-!
# Files

A run reads one file and writes one.  This file models the tree of all files,
with the current directory somewhere in it.  Paths are followed through the
tree, and may lead up again or begin at the root.

A file is written in two steps: it is opened, which makes it or empties it, and
then it is filled.  What goes wrong in the second step leaves it changed.
-/

namespace Schematic

namespace Storage

/-- The names that lead from the root to a place. -/
abbrev Place := List String

/-- Whether a process may read a file and change it, or go through a directory
and make files in it. -/
structure Access where
  reads : Bool := true
  writes : Bool := true
deriving DecidableEq, Repr

/-- What stands at a place. -/
inductive Entry where
  | file (bytes : ByteArray) (access : Access := {})
  | directory (access : Access := {})

instance : DecidableEq Entry
  | .file bytes access, .file otherBytes otherAccess =>
      match ByteArray.instDecidableEq bytes otherBytes with
      | isTrue same =>
          if sameAccess : access = otherAccess then isTrue (by rw [same, sameAccess])
          else isFalse (by simp [sameAccess])
      | isFalse different => isFalse (by simp [different])
  | .directory access, .directory otherAccess =>
      if sameAccess : access = otherAccess then isTrue (by rw [sameAccess])
      else isFalse (by simpa using sameAccess)
  | .file _ _, .directory _ => isFalse (by simp)
  | .directory _, .file _ _ => isFalse (by simp)

/-- All files, the current directory, and how many bytes fit into a file if there
is a limit. -/
structure Files where
  entries : List (Place × Entry)
  current : Place := []
  room : Option Nat := none

/-- Why a path leads to no place, or a file cannot be written. -/
inductive Fault where
  | missing
  /-- A file stands where a directory is needed. -/
  | blocked
  /-- A directory stands in the place of the file. -/
  | directory
  | denied
  | longName
  /-- The file does not fit. -/
  | full
deriving DecidableEq, Repr

namespace Fault

def number : Fault → Nat
  | .missing => 2
  | .blocked => 20
  | .directory => 21
  | .denied => 13
  | .longName => 36
  | .full => 28

def words : Fault → String
  | .missing => "No such file or directory"
  | .blocked => "Not a directory"
  | .directory => "Is a directory"
  | .denied => "Permission denied"
  | .longName => "File name too long"
  | .full => "No space left on device"

/-- A fault at a path in one line.  A file that is open is not named any more. -/
def message (fault : Fault) (path : String) : String :=
  let fact := "[Errno " ++ toString fault.number ++ "] " ++ fault.words
  if fault = .full then fact else fact ++ ": " ++ Text.quoted path

end Fault

/-- What is found at a path by a reader. -/
inductive Found where
  | file (bytes : ByteArray)
  /-- A file that may not be read. -/
  | locked
  | noFile
  /-- A directory on the way lets nobody through. -/
  | closed
  | tooLong

/-- How writing a file ends. -/
inductive Written where
  | all
  | failed (fault : Fault)
  /-- The text has no encoding, and the file is left empty. -/
  | unencodable
deriving DecidableEq, Repr

def nameLimit : Nat := 255

def pathLimit : Nat := 4095

def isLongName (name : String) : Bool :=
  nameLimit < name.utf8ByteSize

namespace Files

/-- Whether a place is on the way to something, or to the current directory. -/
def isOnWay (files : Files) (place : Place) : Bool :=
  place.isPrefixOf files.current || files.entries.any fun entry => place.isPrefixOf entry.1

/-- What stands at a place.  There are directories on the way to everything. -/
def at? (files : Files) (place : Place) : Option Entry :=
  match files.entries.lookup place with
  | some entry => some entry
  | none => if files.isOnWay place then some (.directory) else none

/-! ## Following paths -/

/-- Follows names from a place.  Nothing is above the root but the root. -/
def walk (files : Files) : (place : Place) → List String → Except Fault Place
  | place, [] => .ok place
  | place, name :: rest =>
      match files.at? place with
      | none => .error .missing
      | some (.file _ _) => .error .blocked
      | some (.directory access) =>
          if !access.reads then .error .denied
          else if name = ".." then files.walk place.dropLast rest
          else if isLongName name then .error .longName
          else files.walk (place ++ [name]) rest

def origin (files : Files) (path : Path) : Place :=
  match path.anchor with
  | .here => files.current
  | .root => []
  | .doubleRoot => []

def resolve (files : Files) (path : Path) : Except Fault Place :=
  if pathLimit < path.text.utf8ByteSize then .error .longName
  else files.walk (files.origin path) path.names

def find (files : Files) (path : Path) : Found :=
  if path.hasNull then .noFile
  else
    match files.resolve path with
    | .error .denied => .closed
    | .error .longName => .tooLong
    | .error _ => .noFile
    | .ok place =>
        match files.at? place with
        | some (.file bytes access) => if access.reads then .file bytes else .locked
        | _ => .noFile

/-! ## Writing -/

def set (place : Place) (entry : Entry) : List (Place × Entry) → List (Place × Entry)
  | [] => [(place, entry)]
  | first :: rest =>
      if first.1 = place then (place, entry) :: rest else first :: set place entry rest

/-- Puts bytes into the file at a place, which may be a new one. -/
def put (files : Files) (place : Place) (bytes : ByteArray) : Files :=
  let entry : Entry :=
    match files.at? place with
    | some (.file _ access) => .file bytes access
    | _ => .file bytes
  { files with entries := set place entry files.entries }

/-- Whether files can be made in a directory. -/
def takesFiles (files : Files) (place : Place) : Bool :=
  match files.at? place with
  | some (.directory access) => access.writes
  | _ => false

/-- Opens the file at a path to write it: the place, and the files with this one
empty. -/
def create (files : Files) (path : Path) : Except Fault (Place × Files) := do
  let place ← files.resolve path
  match files.at? place with
  | some (.directory _) => throw .directory
  | some (.file _ access) =>
      if access.writes then return (place, files.put place .empty) else throw .denied
  | none =>
      if files.takesFiles place.dropLast then return (place, files.put place .empty)
      else throw .denied

/-- Fills a file that is open, as far as there is room. -/
def fill (files : Files) (place : Place) (bytes : ByteArray) : Written × Files :=
  match files.room.filter (· < bytes.size) with
  | some room => (.failed .full, files.put place (bytes.extract 0 room))
  | none => (.all, files.put place bytes)

/-- Writes a text to the file at a path. -/
def write (files : Files) (path : Path) (text : Text.Coded) : Written × Files :=
  match files.create path with
  | .error fault => (.failed fault, files)
  | .ok (place, opened) =>
      match text.whole? with
      | none => (.unencodable, opened)
      | some text => opened.fill place text.toUTF8

end Files

end Storage

end Schematic
