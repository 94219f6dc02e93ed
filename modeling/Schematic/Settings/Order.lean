import Schematic.Settings.Schema

/-!
# The order of offending keys

Offending keys are put in an order while they are found.  Not all keys have an
order: a text or a whole number goes before keys of all other kinds, but any
other key can be compared with keys of its own kind alone, and a number with
numbers.  This file tells whether the offending keys of some raw settings can be
put in an order; a report on them can be made only then.

Which keys are compared follows from how a list is sorted: the items that rise
or fall from its beginning are taken as they are, or reversed, and each item
behind them is inserted by bisection.
-/

namespace Schematic

namespace Settings

/-! ## Comparing keys -/

/-- Whether a number in double precision is below a whole number. -/
def numberBelow (measured : Float) (count : Int) : Bool :=
  match (Number.Binary64.ofFloat measured).value? with
  | some value => value < count
  | none => measured < 0

/-- Whether a key goes before another, if that can be told.  Texts and whole
numbers go before all keys of other kinds. -/
def goesBefore? (first second : Yaml.Atom) : Option Bool :=
  match first, second with
  | .text first, .text second => some (first < second)
  | .text _, _ => some true
  | .date first, .date second => first.earlier? second
  | .bytes first, .bytes second => some (first < second)
  | first, second =>
      match first.quantity?, second.quantity? with
      | some (.inl first), some (.inl second) => some (first < second)
      | some (.inl _), _ => some true
      | some (.inr first), some (.inl second) => some (numberBelow first second)
      | some (.inr first), some (.inr second) => some (first < second)
      | _, _ => none

/-! ## Sorting -/

section Sorting

variable {α : Type} (before? : α → α → Option Bool)

/-- The items at the beginning of a list that go on falling from the item `last`
in front of them, or on rising if `falling` is false, and the items behind. -/
def runFrom? (falling : Bool) (last : α) : List α → Option (List α × List α)
  | [] => some ([], [])
  | item :: rest => do
      if (← before? item last) = falling then
        let (run, others) ← runFrom? falling item rest
        return (item :: run, others)
      else return ([], item :: rest)

/-- The items that rise or fall from the beginning of a list, from the first to
the last in the order, and the items behind them. -/
def run? : List α → Option (List α × List α)
  | first :: second :: rest => do
      let falling ← before? second first
      let (run, others) ← runFrom? before? falling second rest
      let items := first :: second :: run
      return (if falling then items.reverse else items, others)
  | items => some (items, [])

/-- Inserts an item into a sorted list by bisection, behind those that it does
not go before. -/
def insert? (item : α) (sorted : List α) : Option (List α) :=
  match behind : sorted.drop (sorted.length / 2) with
  | [] => some [item]
  | middle :: later =>
      have parts : sorted.length / 2 + (later.length + 1) = sorted.length := by
        have lengths := congrArg List.length behind
        simp only [List.length_drop, List.length_cons] at lengths
        omega
      do
        if ← before? item middle then
          return (← insert? item (sorted.take (sorted.length / 2))) ++ middle :: later
        else
          return sorted.take (sorted.length / 2) ++ middle :: (← insert? item later)
termination_by sorted.length
decreasing_by all_goals grind

def sort? (items : List α) : Option (List α) := do
  let (run, others) ← run? before? items
  others.foldlM (fun sorted item => insert? before? item sorted) run

/-- Sorts a list that grows: after each item that is added behind those that are
there already. -/
def gather? (start added : List α) : Option (List α) :=
  added.foldlM (fun sorted item => sort? before? (sorted ++ [item])) start

end Sorting

/-! ## Offending keys -/

/-- The keys of a section that are unknown, and all that are offending, in the
order in which they are given. -/
def sectionKeys (section_ : Section) (entries : RawEntries) :
    List Yaml.Atom × List Yaml.Atom :=
  let offending := entries.filterMap fun (key, raw) =>
    (section_.keyOffence? key raw).map (key, ·)
  ((offending.filter fun entry => entry.2 = .unknownKey).map Prod.fst, offending.map Prod.fst)

/-- The order of unknown keys of a section and the section as a whole, which goes
before its keys. -/
def goesBeforeInSection? : Option Yaml.Atom → Option Yaml.Atom → Option Bool
  | none, some _ => some true
  | some first, some second => goesBefore? first second
  | _, none => some false

/-- Whether the offending keys of a section can be put in an order: by
themselves, the unknown ones by themselves, and these in the order of all
together with the section as a whole. -/
def sectionHasOrder (section_ : Section) (entries : RawEntries) : Bool :=
  let (unknown, offending) := sectionKeys section_ entries
  let order := do
    let sorted ← gather? goesBefore? [] offending
    let _ ← gather? goesBefore? [] unknown
    let named := sorted.filter fun key => (section_.rule? key).isNone
    gather? goesBeforeInSection? [none] (named.map some)
  order.isSome

/-- Whether the offending keys under one key of the whole can be put in an
order. -/
def entryHasOrder (key : Yaml.Atom) (raw : Raw) : Bool :=
  match Section.ofKey? key, raw with
  | some section_, .mapping entries => sectionHasOrder section_ entries
  | _, _ => true

/-- Whether the offending keys can be put in an order: those of each section, and
those of the whole, among which a section counts as one. -/
def offencesHaveOrder (entries : RawEntries) : Bool :=
  let offending := entries.filter fun (key, raw) => !(keyComplaints key raw).isEmpty
  let unknown := offending.filter fun entry => (Section.ofKey? entry.1).isNone
  entries.all (fun (key, raw) => entryHasOrder key raw) &&
    (gather? goesBefore? [] (offending.map Prod.fst)).isSome &&
    (gather? goesBefore? [] (unknown.map Prod.fst)).isSome

end Settings

end Schematic
