import Schematic.Proofs.Outcome
import Schematic.Settings.Read

/-!
# Settings that cannot be used

Reading the settings of a file either gives settings, or a problem that can be
told to the user, or it breaks off.  This file lists what makes it break off: a
directory that lets nobody through, a name that is too long, a file that is no
text, a document without a value, a number beyond double precision, and offending
keys that have no order or are too long to be written.
-/

namespace Schematic

namespace Settings

/-- The document that the bytes of a file hold, or why they hold none. -/
def documentOf? (bytes : ByteArray) : Option (Except Yaml.Fault (Option Yaml.ValuedDocument)) :=
  (String.fromUTF8? bytes).map fun text =>
    Yaml.read (String.ofList (withLineFeeds text.toList))

/-- The bytes of a file hold a mapping with the given entries. -/
def HoldsEntries (bytes : ByteArray) (entries : RawEntries) : Prop :=
  ∃ document, documentOf? bytes = some (.ok (some document)) ∧
    rawValue document settingsDepth document.root = .mapping entries

/-- Why the settings found at a path cannot be used, and cannot be told of
either. -/
inductive Unusable : Storage.Found → Failure → Prop where
  | longName : Unusable .tooLong .longName
  | closed : Unusable .closed .closed
  | undecodable {bytes : ByteArray} :
      documentOf? bytes = none → Unusable (.file bytes) .undecodable
  /-- The document is in the language of settings files, but has no value. -/
  | document {bytes : ByteArray} {fault : Yaml.Fault} :
      documentOf? bytes = some (.error fault) → fault ≠ .malformed →
      Unusable (.file bytes) (.document fault)
  /-- A number that is right where it stands is beyond double precision. -/
  | tooLarge {bytes : ByteArray} {entries : RawEntries} :
      HoldsEntries bytes entries → offences entries = [] → assign entries = .error {} →
      Unusable (.file bytes) .tooLarge
  /-- The offending keys cannot be listed in an order. -/
  | noOrder {bytes : ByteArray} {entries : RawEntries} :
      HoldsEntries bytes entries → offences entries ≠ [] → offencesHaveOrder entries = false →
      Unusable (.file bytes) .noOrder
  /-- An offending key has more digits than are ever written. -/
  | longNumber {bytes : ByteArray} {entries : RawEntries} :
      HoldsEntries bytes entries → offences entries ≠ [] → offencesHaveOrder entries = true →
      hasKeyIn isLongNumber (errorTree entries) = true → Unusable (.file bytes) .longNumber

end Settings

end Schematic
