import Schematic.Yaml.Atom

/-!
# Raw settings

Settings come as values under keys before anything is known about them.  This
file holds these values, in which everything that no setting can be is the
same.  A key can be any atom, but only texts are keys of settings.
-/

namespace Schematic

namespace Settings

/-- A value that somebody gives for a setting. -/
inductive Raw where
  | null
  | flag (holds : Bool)
  | whole (number : Int)
  | number (number : Float)
  | text (text : Text.Coded)
  | mapping (entries : List (Yaml.Atom × Raw))
  /-- Anything else. -/
  | other
deriving Inhabited

/-- Values under keys, in the order in which they are given. -/
abbrev RawEntries := List (Yaml.Atom × Raw)

namespace RawEntries

def under? (name : String) (entries : RawEntries) : Option Raw :=
  (entries.find? fun entry => entry.1.isText name).map Prod.snd

end RawEntries

end Settings

end Schematic
