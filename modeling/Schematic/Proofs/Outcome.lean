/-!
# Outcomes of steps that may fail

A reader or a layout is made in steps, each of which may fail.  If all of them
together succeed, then each of them does.
-/

namespace Schematic

/-- Two steps succeed only if the first one does, and the second one on its
value. -/
theorem exists_of_bind_eq_ok {ε α β : Type} {first : Except ε α} {second : α → Except ε β}
    {result : β} (succeeds : (first >>= second) = .ok result) :
    ∃ value, first = .ok value ∧ second value = .ok result := by
  cases first with
  | error fault => cases succeeds
  | ok value => exact ⟨value, rfl, succeeds⟩

theorem mapError_ok {ε ε' α : Type} (words : ε → ε') (value : α) :
    (Except.ok value).mapError words = .ok value :=
  rfl

/-- A step that succeeds hands its value to the next one. -/
theorem ok_bind {ε α β : Type} (value : α) (second : α → Except ε β) :
    ((.ok value : Except ε α) >>= second) = second value :=
  rfl

/-- Whether a step has a certain value can be decided if values can be compared,
whatever the faults are. -/
theorem eq_ok_of_toOption {ε α : Type} {outcome : Except ε α} {value : α}
    (hasValue : outcome.toOption = some value) : outcome = .ok value := by
  cases outcome with
  | error fault => cases hasValue
  | ok other =>
      cases hasValue
      rfl

/-- The fault of a step that fails. -/
def faultOf? {ε α : Type} : Except ε α → Option ε
  | .error fault => some fault
  | .ok _ => none

/-- Whether a step has a certain fault can be decided if faults can be compared,
whatever the values are. -/
theorem eq_error_of_faultOf? {ε α : Type} {outcome : Except ε α} {fault : ε}
    (hasFault : faultOf? outcome = some fault) : outcome = .error fault := by
  cases outcome with
  | error other =>
      cases hasFault
      rfl
  | ok value => cases hasFault

end Schematic
