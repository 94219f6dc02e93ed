import Schematic.Proofs.Reading.Complete
import Schematic.Proofs.Reading.Spots

/-!
# Readers go from spot to spot

A reader passes only characters that lead on from the spot it starts at.  If it
ends with a circuit, the spot it stops at is one behind a circuit; if it ends
with a fault, no document goes on at the place that the fault speaks of, or too
many groups are open there.

A reader looks one token ahead before it ends, so what may follow it is a part of
what it does.  This file says it for the operators and for chains of items
between them.
-/

namespace Schematic

namespace Reading

open Grammar

namespace Spot

/-- In front of a circuit. -/
def awaiting (chained : Bool) (depth : Nat) : Spot :=
  ⟨.awaiting, chained, depth⟩

/-- Behind a circuit, in front of `rest`, with which no identifier goes on. -/
def IsBehind (chained : Bool) (depth : Nat) (rest : List Char) (spot : Spot) : Prop :=
  spot = ⟨.complete, chained, depth⟩ ∨ spot = ⟨.named, chained, depth⟩ ∧ Stops rest

variable {chained : Bool} {depth : Nat} {spot : Spot} {char : Char} {rest : List Char}

theorem IsBehind.step_eq (behind : spot.IsBehind chained depth (char :: rest)) :
    spot.step char = (Spot.mk .complete chained depth).step char := by
  rcases behind with rfl | ⟨rfl, stops⟩
  · rfl
  · have other : isIdentifierChar char = false := (stops_cons char rest).mp stops
    simp only [step, other, Bool.false_eq_true, if_false]
    cases depth <;> rfl

theorem IsBehind.run_eq (behind : spot.IsBehind chained depth (char :: rest))
    (more : List Char) :
    spot.run (char :: more) = (Spot.mk .complete chained depth).run (char :: more) := by
  rw [run, behind.step_eq]
  rfl

theorem IsBehind.ends_iff (behind : spot.IsBehind chained depth rest) :
    spot.Ends ↔ depth = 0 := by
  rcases behind with rfl | ⟨rfl, -⟩ <;> simp [Ends]

/-! ## Characters that lead nowhere -/

theorem step_awaiting_eq_none (notOpen : char ≠ '(')
    (noLetter : ElementKind.ofLetter? char = none) : (awaiting chained depth).step char = none := by
  simp [awaiting, step, enter, notOpen, noLetter]

/-- Inside of groups only an operator or a closing parenthesis follows a
circuit. -/
theorem step_complete_eq_none (notPlus : char ≠ '+') (notBar : char ≠ '|')
    (notClose : char ≠ ')') (notDash : char ≠ '-') :
    (Spot.mk .complete chained depth).step char = none := by
  cases depth <;> simp [step, leave, notPlus, notBar, notClose, notDash]

theorem operatorKind?_eq_none_iff :
    operatorKind? char = none ↔
      char ≠ '|' ∧ char ≠ '-' ∧ char ≠ '+' ∧ char ≠ '(' ∧ char ≠ ')' := by
  unfold operatorKind?
  split <;> simp_all

end Spot

namespace Cause

/-- A fault of this cause stands where no document goes on, however deep it is
nested. -/
def IsOfPlace : Cause → Prop
  | .unknownLetter _ => False
  | .nestingTooDeep => False
  | _ => True

end Cause

/-- What the fault of a reader says that starts at `spot` in front of `input`,
where the first character of `input` has the offset `position`. -/
inductive Fails (spot : Spot) (position : Nat) (input : List Char) (fault : Fault) : Prop where
  /-- No document goes on at the place that the fault speaks of. -/
  | stuck (passed : List Char) {rest : List Char} {last : Spot} :
      input = passed ++ rest → spot.run passed = some last → last.Stuck rest →
      fault.reach = (position + passed.length : Nat) → (position : Int) ≤ fault.position →
      fault.cause.IsOfPlace → Fails spot position input fault
  /-- More groups are open than may be. -/
  | tooDeep (passed : List Char) {rest : List Char} {last : Spot} :
      input = passed ++ rest → spot.run passed = some last → nestingLimit < last.depth →
      fault.cause = .nestingTooDeep → Fails spot position input fault

/-- What a reader does from `spot` on, in front of `input`: it fails, or it passes
at least `count` tokens and stops behind a circuit, in front of a rest of which
`Ahead` holds. -/
inductive Trail {α : Type} (spot : Spot) (chained : Bool) (depth : Nat)
    (Ahead : List Char → Prop) (count position : Nat) (input : List Char) :
    Except Fault (α × Cursor) → Prop where
  | passed {value : α} (passed : List Char) {rest : List Char} {behind : Nat} {last : Spot} :
      input = passed ++ rest → behind = position + passed.length →
      spot.run passed = some last → last.IsBehind chained depth rest → Ahead rest →
      (cursorAt behind rest).tokens.length + count ≤ (cursorAt position input).tokens.length →
      Trail spot chained depth Ahead count position input (.ok (value, cursorAt behind rest))
  | failed {fault : Fault} :
      Fails spot position input fault →
      Trail spot chained depth Ahead count position input (.error fault)

/-- What a reader of operators does behind a circuit, in front of `input`: it
passes the sign of the operator, finds another character, or fails. -/
inductive Parting (sign : List Char) (chained : Bool) (depth : Nat) (Ahead : List Char → Prop)
    (position : Nat) (input : List Char) : Except Fault (Option Cursor) → Prop where
  | found {rest : List Char} {behind : Nat} :
      input = sign ++ rest → behind = position + sign.length →
      (cursorAt behind rest).tokens.length ≤ (cursorAt position input).tokens.length →
      Parting sign chained depth Ahead position input (.ok (some (cursorAt behind rest)))
  | lacking : Ahead input → Parting sign chained depth Ahead position input (.ok none)
  | failed {fault : Fault} :
      (∀ spot : Spot, spot.IsBehind chained depth input → Fails spot position input fault) →
      Parting sign chained depth Ahead position input (.error fault)

/-! ## Faults -/

namespace Fails

variable {spot next : Spot} {position : Nat} {rest input : List Char} {fault : Fault}

/-- A fault behind some characters is one of the whole text. -/
theorem after (passed : List Char) (leads : spot.run passed = some next)
    (fails : Fails next (position + passed.length) rest fault) :
    Fails spot position (passed ++ rest) fault := by
  cases fails with
  | @stuck more others last same run stuck reached bounded ofPlace =>
      refine .stuck (passed ++ more) (by rw [same, List.append_assoc]) ?_ stuck ?_ ?_
        ofPlace
      · rw [Spot.run_append, leads]
        exact run
      · rw [reached, List.length_append, Nat.add_assoc]
      · omega
  | @tooDeep more others last same run deep isDeep =>
      refine .tooDeep (passed ++ more) (by rw [same, List.append_assoc]) ?_ deep isDeep
      rw [Spot.run_append, leads]
      exact run

/-- A fault at the first character. -/
theorem here (stuck : spot.Stuck input) {cause : Cause} (ofPlace : cause.IsOfPlace)
    (reached : (Fault.mk position cause).reach = position) :
    Fails spot position input ⟨position, cause⟩ :=
  .stuck [] rfl rfl stuck (by simpa using reached) (Int.le_refl _) ofPlace

/-- A fault that names the character in front of the place that it speaks of. -/
theorem behind {char : Char} (leads : spot.step char = some next) (stuck : next.Stuck rest)
    {cause : Cause} (ofPlace : cause.IsOfPlace)
    (reached : (Fault.mk position cause).reach = position + 1) :
    Fails spot position (char :: rest) ⟨position, cause⟩ := by
  refine .stuck [char] rfl ?_ stuck ?_ (Int.le_refl _) ofPlace
  · rw [Spot.run_singleton, leads]
  · simpa using reached

end Fails

/-- A text whose next token is no token at all begins with a foreign character. -/
theorem foreign_of_current {position : Nat} {input : List Char} {fault : Fault}
    (current : (cursorAt position input).current = .error fault) :
    ∃ char rest, input = char :: rest ∧ operatorKind? char = none ∧
      ElementKind.ofLetter? char = none ∧
      fault = ⟨position, .unexpectedCharacter (String.singleton char)⟩ := by
  cases opening input with
  | nothing => cases current
  | operator rest found =>
      rw [current_operator found] at current
      cases current
  | openCircuit stops =>
      rw [current_openCircuit stops] at current
      cases current
  | named nonempty alphanumeric stops =>
      rw [current_named nonempty alphanumeric stops] at current
      cases current
  | unnamed notOpen stops =>
      rw [current_unnamed notOpen stops] at current
      cases current
  | @foreign char rest noOperator noLetter =>
      rw [current_foreign noOperator noLetter] at current
      cases current
      exact ⟨char, rest, rfl, noOperator, noLetter, rfl⟩

/-- The next token begins where the cursor stands. -/
theorem position_of_current {position : Nat} {input : List Char} {token : Token}
    (current : (cursorAt position input).current = .ok token) : token.position = position := by
  cases opening input with
  | nothing =>
      cases current
      rfl
  | operator rest found =>
      rw [current_operator found] at current
      cases current
      rfl
  | openCircuit stops =>
      rw [current_openCircuit stops] at current
      cases current
      rfl
  | named nonempty alphanumeric stops =>
      rw [current_named nonempty alphanumeric stops] at current
      cases current
      rfl
  | unnamed notOpen stops =>
      rw [current_unnamed notOpen stops] at current
      cases current
      rfl
  | foreign rest noOperator noLetter =>
      rw [current_foreign noOperator noLetter] at current
      cases current

/-- A foreign character leads on from nowhere at the boundary of a token. -/
theorem Fails.of_current {spot : Spot} {position : Nat} {input : List Char} {fault : Fault}
    (current : (cursorAt position input).current = .error fault)
    (noStep : ∀ char rest, input = char :: rest → operatorKind? char = none →
      ElementKind.ofLetter? char = none → spot.step char = none) :
    Fails spot position input fault := by
  obtain ⟨char, rest, rfl, noOperator, noLetter, rfl⟩ := foreign_of_current current
  have stuck : spot.Stuck (char :: rest) := noStep char rest rfl noOperator noLetter
  exact .here stuck trivial rfl

theorem Spot.step_awaiting_of_foreign {chained : Bool} {depth : Nat} {char : Char}
    (noOperator : operatorKind? char = none) (noLetter : ElementKind.ofLetter? char = none) :
    (Spot.awaiting chained depth).step char = none :=
  step_awaiting_eq_none (operatorKind?_eq_none_iff.mp noOperator).2.2.2.1 noLetter

theorem Spot.step_complete_of_foreign {chained : Bool} {depth : Nat} {char : Char}
    (noOperator : operatorKind? char = none) :
    (Spot.mk .complete chained depth).step char = none := by
  obtain ⟨notBar, notDash, notPlus, -, notClose⟩ := operatorKind?_eq_none_iff.mp noOperator
  exact step_complete_eq_none notPlus notBar notClose notDash

/-- A foreign character behind a circuit. -/
theorem Fails.of_current_behind {spot : Spot} {chained : Bool} {depth position : Nat}
    {input : List Char} {fault : Fault}
    (current : (cursorAt position input).current = .error fault)
    (behind : spot.IsBehind chained depth input) : Fails spot position input fault := by
  refine .of_current current fun char rest same noOperator _ => ?_
  subst same
  rw [behind.step_eq]
  exact Spot.step_complete_of_foreign noOperator

/-- A token that is not there where it has to be. -/
theorem Fails.of_expect {spot : Spot} {chained : Bool} {depth position : Nat}
    {input : List Char} {kind : TokenKind} {expected : String} {fault : Fault}
    (read : (cursorAt position input).expect kind expected = .error fault)
    (behind : spot.IsBehind chained depth input)
    (stuck : ∀ token, (cursorAt position input).current = .ok token → token.kind ≠ kind →
      spot.Stuck input) : Fails spot position input fault := by
  rw [Cursor.expect] at read
  cases current : (cursorAt position input).current with
  | error other =>
      rw [current] at read
      cases read
      exact .of_current_behind current behind
  | ok token =>
      rw [current, ok_bind] at read
      split at read
      · cases read
      · next otherKind =>
        cases read
        rw [Cursor.unexpected, position_of_current current]
        exact .here (stuck token current otherKind) trivial rfl

/-! ## Operators -/

/-- No member of a sum follows. -/
def LacksPlus (rest : List Char) : Prop :=
  rest.head? ≠ some '+'

/-- No branch of a parallel group follows. -/
def LacksBar (rest : List Char) : Prop :=
  rest.head? ≠ some '|'

/-- Where the next token is no operator of a kind, its sign does not come next. -/
theorem head_ne_of_current {char : Char} {kind : TokenKind}
    (found : operatorKind? char = some kind) {position : Nat} {input : List Char} {token : Token}
    (current : (cursorAt position input).current = .ok token) (otherKind : token.kind ≠ kind) :
    input.head? ≠ some char := by
  intro head
  obtain ⟨rest, rfl⟩ := List.head?_eq_some_iff.mp head
  rw [current_operator found] at current
  cases current
  exact otherKind rfl

theorem readPlus_parting (chained : Bool) (depth position : Nat) (input : List Char) :
    Parting ['+'] chained depth LacksPlus position input
      (readPlus (cursorAt position input)) := by
  have isPlus : operatorKind? '+' = some .plus := rfl
  rw [readPlus]
  cases current : (cursorAt position input).current with
  | error fault => exact .failed fun spot behind => .of_current_behind current behind
  | ok token =>
      rw [ok_bind]
      split
      · next sameKind =>
        obtain ⟨rest, rfl⟩ := input_of_current '+' isPlus current sameKind
        rw [advance_operator isPlus]
        refine .found rfl rfl ?_
        rw [tokens_length_operator isPlus]
        exact Nat.le_succ _
      · next otherKind => exact .lacking (head_ne_of_current isPlus current otherKind)

/-- Behind one bar inside of a group only another one leads on. -/
theorem Spot.stuck_barred {chained : Bool} {depth : Nat} {rest : List Char}
    (noBar : rest.head? ≠ some '|') : (Spot.mk .barred chained depth).Stuck rest := by
  cases rest with
  | nil => simp [Stuck, Ends]
  | cons char rest =>
      have notBar : char ≠ '|' := by simpa using noBar
      simp [Stuck, step, notBar]

theorem readParallel_parting (chained : Bool) (depth position : Nat) (input : List Char) :
    Parting ['|', '|'] chained (depth + 1) LacksBar position input
      (readParallel (cursorAt position input)) := by
  have isBar : operatorKind? '|' = some .pipe := rfl
  rw [readParallel]
  cases current : (cursorAt position input).current with
  | error fault => exact .failed fun spot behind => .of_current_behind current behind
  | ok token =>
      rw [ok_bind, if_neg (kind_ne_of_current current).2]
      split
      · next sameKind =>
        obtain ⟨rest, rfl⟩ := input_of_current '|' isBar current sameKind
        rw [advance_operator isBar]
        have barred : ∀ spot : Spot, spot.IsBehind chained (depth + 1) ('|' :: rest) →
            spot.step '|' = some ⟨.barred, chained, depth + 1⟩ := by
          intro spot behind
          rw [behind.step_eq]
          rfl
        cases second : (cursorAt (position + 1) rest).current with
        | error fault =>
            refine .failed fun spot behind => ?_
            have leads : spot.run ['|'] = some ⟨.barred, chained, depth + 1⟩ := by
              rw [Spot.run_singleton, barred spot behind]
            refine .after ['|'] leads (.of_current second ?_)
            intro char others same noOperator _
            have notBar := (Spot.operatorKind?_eq_none_iff.mp noOperator).1
            simp [Spot.step, notBar]
        | ok next =>
            rw [ok_bind]
            split
            · next isSecond =>
              obtain ⟨rest, rfl⟩ := input_of_current '|' isBar second isSecond
              rw [advance_operator isBar]
              refine .found rfl rfl ?_
              rw [tokens_length_operator isBar, tokens_length_operator isBar]
              omega
            · next otherKind =>
              refine .failed fun spot behind => ?_
              rw [position_of_current current]
              exact .behind (barred spot behind)
                (Spot.stuck_barred (head_ne_of_current isBar second otherKind)) trivial rfl
      · next otherKind => exact .lacking (head_ne_of_current isBar current otherKind)

/-! ## Groups -/

/-- What is read behind some characters is read behind a circuit of the whole text,
whatever is made of its value. -/
theorem Trail.after {α β : Type} {spot next : Spot} {chained : Bool} {depth : Nat}
    {Ahead : List Char → Prop} {position behind count : Nat} {rest : List Char}
    {outcome : Except Fault (α × Cursor)} (passed : List Char) (leads : spot.run passed = some next)
    (placed : behind = position + passed.length)
    (notMore : (cursorAt behind rest).tokens.length ≤
      (cursorAt position (passed ++ rest)).tokens.length)
    (trail : Trail next chained depth Ahead count behind rest outcome) (make : α → β) :
    Trail spot chained depth Ahead count position (passed ++ rest)
      (outcome >>= fun result => pure (make result.1, result.2)) := by
  subst placed
  cases trail with
  | failed fails => exact .failed (.after passed leads fails)
  | @passed value more others final last same placed run behind ahead fewer =>
      refine .passed (passed ++ more) ?_ ?_ ?_ behind ahead
        (Nat.le_trans fewer notMore)
      · rw [same, List.append_assoc]
      · rw [placed, List.length_append, Nat.add_assoc]
      · rw [Spot.run_append, leads]
        exact run

theorem Trail.imp {α : Type} {spot : Spot} {chained : Bool} {depth count less position : Nat}
    {Ahead Weaker : List Char → Prop} {input : List Char} {outcome : Except Fault (α × Cursor)}
    (trail : Trail spot chained depth Ahead count position input outcome)
    (weaker : ∀ rest, Ahead rest → Weaker rest) (notMore : less ≤ count) :
    Trail spot chained depth Weaker less position input outcome := by
  cases trail with
  | failed fails => exact .failed fails
  | passed passed same placed leads behind ahead fewer =>
      exact .passed _ same placed leads behind (weaker _ ahead) (by omega)

/-- A chain of items with signs between them ends behind its last item, where no
sign follows. -/
theorem readChain_trail {α : Type} {item : Reader α} {operator : OperatorReader}
    {sign : List Char} {chained : Bool} {depth : Nat} {Inside Ahead : List Char → Prop}
    (itemTrail : ∀ position input, Trail (.awaiting chained depth) chained depth Inside 1
      position input (item (cursorAt position input)))
    (parting : ∀ position input, Parting sign chained depth Ahead position input
      (operator (cursorAt position input)))
    (crosses : ∀ rest (spot : Spot), spot.IsBehind chained depth (sign ++ rest) →
      spot.run sign = some (.awaiting chained depth))
    (steps position : Nat) (input : List Char)
    (enough : (cursorAt position input).tokens.length ≤ steps) :
    Trail (.awaiting chained depth) chained depth (fun rest => Inside rest ∧ Ahead rest)
      1 position input (readChain item operator steps (cursorAt position input)) := by
  induction steps generalizing position input with
  | zero =>
      rw [readChain]
      have first := itemTrail position input
      generalize item (cursorAt position input) = outcome at first ⊢
      cases first with
      | failed fails => exact .failed fails
      | passed passed same placed leads behind inside fewer => omega
  | succ steps ih =>
      rw [readChain]
      have first := itemTrail position input
      generalize item (cursorAt position input) = outcome at first ⊢
      cases first with
      | failed fails => exact .failed fails
      | @passed value passed rest behindItem last same placed leads behind inside fewer =>
          simp only [ok_bind]
          have between := parting behindItem rest
          generalize operator (cursorAt behindItem rest) = found at between ⊢
          cases between with
          | failed fails =>
              subst same placed
              exact .failed (.after passed leads (fails last behind))
          | lacking ahead => exact .passed passed same placed leads behind ⟨inside, ahead⟩ fewer
          | @found others behindSign isSign placedSign notMore =>
              simp only [ok_bind]
              have othersTrail := ih behindSign others (by omega)
              subst isSign
              rw [← List.append_assoc] at same
              subst same
              refine Trail.after _ ?_ ?_ (by omega) othersTrail (value :: ·)
              · rw [Spot.run_append, leads]
                exact crosses others last behind
              · rw [placedSign, placed, List.length_append, Nat.add_assoc]

end Reading

end Schematic
