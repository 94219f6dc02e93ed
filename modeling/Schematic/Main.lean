import Schematic.CommandLine.Run

/-!
# The command

The command runs on the files, the standard input and the standard output of
its process.
-/

namespace Schematic

namespace CommandLine

/-- Reads a stream to its end. -/
partial def readAll (stream : IO.FS.Stream) (before : ByteArray) : IO ByteArray := do
  let bytes ← stream.read 65536
  if bytes.isEmpty then return before else readAll stream (before ++ bytes)

/-- The fault that an error of the file system stands for. -/
def faultOf : IO.Error → Storage.Fault
  | .permissionDenied .. => .denied
  | .inappropriateType _ number _ => if number == 20 then .blocked else .directory
  | .invalidArgument _ number _ => if number == 36 then .longName else .missing
  | .resourceExhausted .. => .full
  | _ => .missing

/-- The host that works on the files of the process. -/
def process : Host IO where
  find path := do
    try
      return .file (← IO.FS.readBinFile path.text)
    catch error =>
      return match faultOf error with
        | .denied => .locked
        | .longName => .tooLong
        | _ => .noFile
  input := do
    let bytes ← readAll (← IO.getStdin) .empty
    return (String.fromUTF8? bytes).getD ""
  write path text := do
    try
      match text.whole? with
      | some text =>
          IO.FS.writeFile path.text text
          return .all
      | none =>
          IO.FS.writeFile path.text ""
          return .unencodable
    catch error => return .failed (faultOf error)

end CommandLine

end Schematic

def main (arguments : List String) : IO UInt32 := do
  match ← Schematic.CommandLine.run Schematic.CommandLine.process .standard arguments with
  | .ok outcome =>
      (← IO.getStdout).putStr outcome.output
      (← IO.getStderr).putStr outcome.errors
      return outcome.status.toUInt32
  | .error _ =>
      (← IO.getStderr).putStr (Schematic.CommandLine.errorLine "the drawing cannot be made")
      return 1
