/-!
# The journal

Every stage can tell what it does in entries of a journal.  An entry has a
level, the part of the program that it comes from, and a text.
-/

namespace Schematic

/-- How important an entry of the journal is. -/
inductive LogLevel where
  | debug
  | info
  | warning
  | error
deriving DecidableEq, Repr

namespace LogLevel

/-- The name of a level in a journal, in five characters. -/
def label : LogLevel → String
  | .debug => "DEBUG"
  | .info => "INFO "
  | .warning => "WARNI"
  | .error => "ERROR"

end LogLevel

/-- The parts of the program that tell what they do. -/
inductive LogSource where
  | opening
  | command
  | settings
  | rendering
  | tokens
  | circuits
  | layouts
  | alignment
  | connectivity
  | drawing
deriving DecidableEq, Repr

namespace LogSource

/-- The name of a part in a journal. -/
def name : LogSource → String
  | .opening => "root"
  | .command => "circmark.cli"
  | .settings => "circmark.config"
  | .rendering => "circmark.render"
  | .tokens => "circmark.parser.lexer"
  | .circuits => "circmark.parser.parser"
  | .layouts => "circmark.layout.engine"
  | .alignment => "circmark.validation.validator"
  | .connectivity => "circmark.analysis.connectivity"
  | .drawing => "circmark.draw.svg"

end LogSource

/-- An entry of the journal. -/
structure LogEntry where
  level : LogLevel
  source : LogSource
  text : String
deriving DecidableEq, Repr

namespace LogEntry

def line (entry : LogEntry) : String :=
  "[" ++ entry.level.label ++ "] [" ++ entry.source.name ++ "] " ++ entry.text

end LogEntry

/-- Entries in the order in which they were made. -/
abbrev Journal := List LogEntry

namespace Journal

/-- The journal as it is shown, with every entry on lines of its own. -/
def text (journal : Journal) : String :=
  String.join (journal.map fun entry => entry.line ++ "\n")

end Journal

end Schematic
