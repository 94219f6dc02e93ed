import Schematic.Proofs.Reading.Grammar
import Schematic.Reading.Token

/-!
# Spots in a document

A spot is a place between two characters of a document, and holds all that
matters of the characters in front of it: how many groups are open, whether the
document is a chain of links, and which kinds of characters can come next.  One
more character leads to the next spot or nowhere.

From every spot some characters lead to the end of a document, and they open no
further group.  So the texts that lead from the first spot to any other one are
those that documents can begin with.
-/

namespace Schematic

namespace Reading

open Grammar

/-- What stands in front of a spot, apart from the open groups. -/
inductive Stage where
  /-- Nothing at all. -/
  | start
  /-- Something behind which a circuit has to follow. -/
  | awaiting
  /-- The letter of an element, behind which an identifier has to follow. -/
  | lettered
  /-- An identifier, which can go on. -/
  | named
  /-- A complete circuit. -/
  | complete
  /-- The first one of two bars. -/
  | barred
deriving DecidableEq, Repr

/-- A place between two characters of a document. -/
structure Spot where
  stage : Stage
  /-- Whether the document is a chain of links. -/
  chained : Bool
  /-- The number of open groups. -/
  depth : Nat
deriving DecidableEq, Repr

namespace Spot

/-- In front of all characters. -/
def first : Spot := ⟨.start, false, 0⟩

/-- Behind the first character of a circuit. -/
def enter (spot : Spot) (char : Char) : Option Spot :=
  if char = '(' then some { spot with stage := .awaiting, depth := spot.depth + 1 }
  else
    match ElementKind.ofLetter? char with
    | some .openCircuit => some { spot with stage := .complete }
    | some _ => some { spot with stage := .lettered }
    | none => none

/-- Behind a character that follows a complete circuit. -/
def leave (spot : Spot) (char : Char) : Option Spot :=
  match spot.depth with
  | 0 =>
      if spot.chained ∧ (char = '|' ∨ char = '-') then some { spot with stage := .awaiting }
      else none
  | depth + 1 =>
      if char = '+' then some { spot with stage := .awaiting }
      else if char = '|' then some { spot with stage := .barred }
      else if char = ')' then some { spot with stage := .complete, depth }
      else none

/-- The spot behind one more character, if a document can go on with it. -/
def step (spot : Spot) (char : Char) : Option Spot :=
  match spot.stage with
  | .start =>
      if char = '|' ∨ char = '-' then some { spot with stage := .awaiting, chained := true }
      else spot.enter char
  | .awaiting => spot.enter char
  | .lettered => if isIdentifierChar char then some { spot with stage := .named } else none
  | .named => if isIdentifierChar char then some spot else spot.leave char
  | .complete => spot.leave char
  | .barred => if char = '|' then some { spot with stage := .awaiting } else none

/-- The spot behind several characters, if a document can go on with them. -/
def run (spot : Spot) : List Char → Option Spot
  | [] => some spot
  | char :: rest => (spot.step char).bind fun next => next.run rest

/-- A document can end here. -/
def Ends (spot : Spot) : Prop :=
  (spot.stage = .complete ∨ spot.stage = .named) ∧ spot.depth = 0

/-- No document goes on with the next one of these characters; if there are none,
no document ends here. -/
def Stuck (spot : Spot) : List Char → Prop
  | [] => ¬spot.Ends
  | char :: _ => spot.step char = none

/-! ## Runs -/

theorem run_append (spot : Spot) (passed rest : List Char) :
    spot.run (passed ++ rest) = (spot.run passed).bind fun next => next.run rest := by
  induction passed generalizing spot with
  | nil => rfl
  | cons char passed ih =>
      rw [List.cons_append, run, run]
      cases spot.step char with
      | none => rfl
      | some next => exact ih next

theorem run_singleton (spot : Spot) (char : Char) : spot.run [char] = spot.step char := by
  rw [run]
  cases spot.step char <;> rfl

theorem run_identifier {spot : Spot} (isNamed : spot.stage = .named) {identifier : List Char}
    (alphanumeric : ∀ char ∈ identifier, char.isAlphanum = true) :
    spot.run identifier = some spot := by
  induction identifier with
  | nil => rfl
  | cons char identifier ih =>
      have goesOn : isIdentifierChar char = true := alphanumeric char List.mem_cons_self
      have same : spot.step char = some spot := by
        rw [step, isNamed]
        simp [goesOn]
      rw [run, same]
      exact ih fun other member => alphanumeric other (List.mem_cons_of_mem char member)

/-! ## Single steps -/

/-- Parentheses open and close groups, and nothing else does. -/
theorem depth_of_step {spot next : Spot} {char : Char} (leads : spot.step char = some next) :
    (char = '(' ∧ next.depth = spot.depth + 1) ∨ (char = ')' ∧ spot.depth = next.depth + 1) ∨
      (IsPlain char ∧ next.depth = spot.depth) := by
  have ofEnter : spot.enter char = some next →
      (char = '(' ∧ next.depth = spot.depth + 1) ∨ (IsPlain char ∧ next.depth = spot.depth) := by
    intro enters
    unfold enter at enters
    split at enters
    · next isOpen =>
      cases enters
      exact .inl ⟨isOpen, rfl⟩
    · next notOpen =>
      have plain : ElementKind.ofLetter? char ≠ none → IsPlain char := by
        intro isLetter
        refine ⟨notOpen, ?_⟩
        rintro rfl
        exact isLetter rfl
      split at enters
      · next isLetter =>
        cases enters
        exact .inr ⟨plain (by simp [isLetter]), rfl⟩
      · next isLetter =>
        cases enters
        exact .inr ⟨plain (by simp [isLetter]), rfl⟩
      · cases enters
  have ofLeave : spot.leave char = some next →
      (char = ')' ∧ spot.depth = next.depth + 1) ∨ (IsPlain char ∧ next.depth = spot.depth) := by
    intro leaves
    unfold leave at leaves
    split at leaves
    · split at leaves
      · next isLink =>
        cases leaves
        rcases isLink.2 with rfl | rfl <;> exact .inr ⟨by simp [IsPlain], rfl⟩
      · cases leaves
    · next isDeep =>
      split at leaves
      · next isPlus =>
        cases leaves
        exact .inr ⟨by simp [IsPlain, isPlus], rfl⟩
      · split at leaves
        · next isBar =>
          cases leaves
          exact .inr ⟨by simp [IsPlain, isBar], rfl⟩
        · split at leaves
          · next isClose =>
            cases leaves
            exact .inl ⟨isClose, isDeep⟩
          · cases leaves
  unfold step at leads
  split at leads
  · split at leads
    · next isLink =>
      cases leads
      rcases isLink with rfl | rfl <;> exact .inr (.inr ⟨by simp [IsPlain], rfl⟩)
    · exact (ofEnter leads).imp_right .inr
  · exact (ofEnter leads).imp_right .inr
  · split at leads
    · next goesOn =>
      cases leads
      exact .inr (.inr ⟨isPlain_of_isAlphanum goesOn, rfl⟩)
    · cases leads
  · split at leads
    · next goesOn =>
      cases leads
      exact .inr (.inr ⟨isPlain_of_isAlphanum goesOn, rfl⟩)
    · exact .inr (ofLeave leads)
  · exact .inr (ofLeave leads)
  · split at leads
    · next isBar =>
      cases leads
      exact .inr (.inr ⟨by simp [IsPlain, isBar], rfl⟩)
    · cases leads

/-- A text that leads to open groups is nested as deep as these. -/
theorem nesting_le_of_run {spot last : Spot} {passed : List Char}
    (leads : spot.run passed = some last) (rest : List Char) :
    nesting last.depth rest ≤ nesting spot.depth (passed ++ rest) := by
  induction passed generalizing spot with
  | nil =>
      cases leads
      exact Nat.le_refl _
  | cons char passed ih =>
      obtain ⟨next, stepped, leads⟩ := Option.bind_eq_some_iff.mp leads
      have behind := ih leads
      rw [List.cons_append]
      rcases depth_of_step stepped with ⟨rfl, deeper⟩ | ⟨rfl, higher⟩ | ⟨plain, same⟩
      · rw [nesting_open, ← deeper]
        exact behind
      · rw [nesting_close, higher, Nat.add_sub_cancel]
        exact Nat.le_trans behind (Nat.le_max_right _ _)
      · rw [nesting_plain plain, ← same]
        exact behind

/-! ## Completions -/

/-- Parentheses that close all open groups. -/
def closers (spot : Spot) : List Char :=
  List.replicate spot.depth ')'

/-- Characters that lead from a spot to the end of a document. -/
def completion (spot : Spot) : List Char :=
  match spot.stage with
  | .start => 'O' :: spot.closers
  | .awaiting => 'O' :: spot.closers
  | .lettered => '1' :: spot.closers
  | .named => spot.closers
  | .complete => spot.closers
  | .barred => '|' :: 'O' :: spot.closers

theorem run_closers (spot : Spot) (isCircuit : spot.stage = .complete ∨ spot.stage = .named) :
    ∃ last, spot.run spot.closers = some last ∧ last.Ends := by
  obtain ⟨stage, chained, depth⟩ := spot
  induction depth generalizing stage with
  | zero => exact ⟨_, rfl, isCircuit, rfl⟩
  | succ depth ih =>
      have closed : (Spot.mk stage chained (depth + 1)).step ')' =
          some ⟨.complete, chained, depth⟩ := by
        rcases isCircuit with rfl | rfl <;> rfl
      obtain ⟨last, leads, ends⟩ := ih .complete (.inl rfl)
      refine ⟨last, ?_, ends⟩
      rw [closers, List.replicate_succ, run, closed]
      exact leads

theorem run_completion (spot : Spot) :
    ∃ last, spot.run spot.completion = some last ∧ last.Ends := by
  obtain ⟨stage, chained, depth⟩ := spot
  cases stage with
  | start => exact run_closers ⟨.complete, chained, depth⟩ (.inl rfl)
  | awaiting => exact run_closers ⟨.complete, chained, depth⟩ (.inl rfl)
  | lettered => exact run_closers ⟨.named, chained, depth⟩ (.inr rfl)
  | named => exact run_closers ⟨.named, chained, depth⟩ (.inr rfl)
  | complete => exact run_closers ⟨.complete, chained, depth⟩ (.inl rfl)
  | barred => exact run_closers ⟨.complete, chained, depth⟩ (.inl rfl)

theorem nesting_replicate_close (level count : Nat) :
    nesting level (List.replicate count ')') ≤ level := by
  induction count generalizing level with
  | zero => exact Nat.le_refl level
  | succ count ih =>
      have behind := ih (level - 1)
      rw [List.replicate_succ, nesting_close]
      omega

/-- A completion opens no group. -/
theorem nesting_completion (spot : Spot) (level : Nat) :
    nesting level spot.completion ≤ level := by
  have closes := nesting_replicate_close level spot.depth
  unfold completion
  split <;> simpa [nesting, closers] using closes

end Spot

end Reading

end Schematic
