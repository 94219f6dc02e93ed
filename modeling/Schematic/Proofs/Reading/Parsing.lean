import Schematic.Proofs.Reading.Trails

/-!
# Parsing goes from spot to spot

This file follows the readers of circuits, of links and of whole documents along
the spots of a text.
-/

namespace Schematic

namespace Reading

open Grammar

/-! ## Groups -/

section Inside

variable {circuit : Reader Circuit} {chained : Bool} {depth : Nat}
  (circuitTrail : ∀ position input,
    Trail (.awaiting chained (depth + 1)) chained (depth + 1) (fun _ => True) 1 position input
      (circuit (cursorAt position input)))

include circuitTrail

theorem readBranches_trail (position : Nat) (input : List Char) :
    Trail (.awaiting chained (depth + 1)) chained (depth + 1) LacksBar 1 position input
      (readBranches circuit (cursorAt position input)) := by
  have crosses : ∀ rest (spot : Spot),
      spot.IsBehind chained (depth + 1) (['|', '|'] ++ rest) →
        spot.run ['|', '|'] = some (.awaiting chained (depth + 1)) := by
    intro rest spot behind
    rw [behind.run_eq]
    rfl
  have chainTrail := readChain_trail circuitTrail (readParallel_parting chained depth) crosses
    _ position input (Nat.le_refl _)
  have trail := chainTrail.after [] rfl rfl (Nat.le_refl _) (collapse .parallel)
  exact trail.imp (fun rest ahead => ahead.2) (Nat.le_refl 1)

/-- The inside of a group is read up to a place where neither a branch nor a member
follows. -/
theorem readMembers_trail (position : Nat) (input : List Char) :
    Trail (.awaiting chained (depth + 1)) chained (depth + 1)
      (fun rest => LacksBar rest ∧ LacksPlus rest) 1 position input
      (readMembers circuit (cursorAt position input)) := by
  have crosses : ∀ rest (spot : Spot), spot.IsBehind chained (depth + 1) (['+'] ++ rest) →
      spot.run ['+'] = some (.awaiting chained (depth + 1)) := by
    intro rest spot behind
    rw [behind.run_eq]
    rfl
  have chainTrail := readChain_trail (readBranches_trail circuitTrail)
    (readPlus_parting chained (depth + 1)) crosses _ position input (Nat.le_refl _)
  exact chainTrail.after [] rfl rfl (Nat.le_refl _) (collapse .series)

end Inside

/-! ## Circuits -/

/-- Inside of a group nothing but an operator or a closing parenthesis follows a
circuit. -/
theorem Spot.IsBehind.stuck {spot : Spot} {chained : Bool} {depth : Nat} {rest : List Char}
    (behind : spot.IsBehind chained (depth + 1) rest) (noBar : LacksBar rest)
    (noPlus : LacksPlus rest) (noClose : rest.head? ≠ some ')') : spot.Stuck rest := by
  cases rest with
  | nil =>
      intro ends
      exact absurd (behind.ends_iff.mp ends) (Nat.succ_ne_zero depth)
  | cons char rest =>
      have notBar : char ≠ '|' := by simpa [LacksBar] using noBar
      have notPlus : char ≠ '+' := by simpa [LacksPlus] using noPlus
      have notClose : char ≠ ')' := by simpa using noClose
      show spot.step char = none
      rw [behind.step_eq]
      simp [step, leave, notBar, notPlus, notClose]

/-- Behind the letter of an element only its identifier leads on. -/
theorem Spot.stuck_lettered {rest : List Char} (stops : Stops rest) (chained : Bool)
    (depth : Nat) : (Spot.mk .lettered chained depth).Stuck rest := by
  cases rest with
  | nil => simp [Stuck, Ends]
  | cons char rest =>
      have other : isIdentifierChar char = false := (stops_cons char rest).mp stops
      simp [Stuck, step, other]

theorem Spot.step_letter (kind : ElementKind) (chained : Bool) (depth : Nat) :
    (Spot.awaiting chained depth).step kind.letter =
      some ⟨if kind = .openCircuit then .complete else .lettered, chained, depth⟩ := by
  cases kind <;> rfl

theorem readElement_unnamed {kind : ElementKind} {rest : List Char}
    (notOpen : kind ≠ .openCircuit) (stops : Stops rest) (chained : Bool) (depth position : Nat) :
    Trail (.awaiting chained depth) chained depth (fun _ => True) 1 position (kind.letter :: rest)
      (readElement (letterToken position kind) (cursorAt (position + 1) rest)) := by
  have lettered : (Spot.awaiting chained depth).step kind.letter =
      some ⟨.lettered, chained, depth⟩ := by
    rw [Spot.step_letter, if_neg notOpen]
  have stuck := Spot.stuck_lettered stops chained depth
  simp only [readElement, letterToken, kindOfValue?_letter]
  cases current : (cursorAt (position + 1) rest).current with
  | error fault =>
      have leads : (Spot.awaiting chained depth).run [kind.letter] =
          some ⟨.lettered, chained, depth⟩ := by
        rw [Spot.run_singleton, lettered]
      refine .failed (.after [kind.letter] leads (.of_current current ?_))
      intro char others same _ _
      subst same
      exact stuck
  | ok next =>
      rw [ok_bind, if_neg notOpen, if_neg (kind_ne_of_current current).1]
      exact .failed (.behind lettered stuck trivial rfl)

theorem Spot.run_named {kind : ElementKind} {identifier : List Char}
    (notOpen : kind ≠ .openCircuit) (nonempty : identifier ≠ [])
    (alphanumeric : ∀ char ∈ identifier, char.isAlphanum = true) (chained : Bool) (depth : Nat) :
    (Spot.awaiting chained depth).run (kind.letter :: identifier) =
      some ⟨.named, chained, depth⟩ := by
  obtain ⟨char, others, rfl⟩ := List.exists_cons_of_ne_nil nonempty
  have begins : isIdentifierChar char = true := alphanumeric char List.mem_cons_self
  have named : (Spot.mk .lettered chained depth).step char = some ⟨.named, chained, depth⟩ := by
    simp [step, begins]
  rw [run, step_letter, if_neg notOpen, Option.bind_some, run, named]
  exact run_identifier rfl fun other member => alphanumeric other (List.mem_cons_of_mem char member)

theorem readElement_trail {kind : ElementKind} {identifier rest : List Char}
    (nonempty : identifier ≠ [])
    (alphanumeric : ∀ char ∈ identifier, char.isAlphanum = true) (stops : Stops rest)
    (chained : Bool) (depth position : Nat) :
    Trail (.awaiting chained depth) chained depth (fun _ => True) 1 position
      (kind.letter :: (identifier ++ rest))
      (readElement (letterToken position kind)
        (cursorAt position (kind.letter :: (identifier ++ rest))).advance) := by
  by_cases isOpen : kind = .openCircuit
  · -- An open circuit has no identifier, so the one behind its letter leads nowhere.
    subst isOpen
    obtain ⟨char, identifier, rfl⟩ := List.exists_cons_of_ne_nil nonempty
    have noOperator : operatorKind? char = none := by
      have begins := alphanumeric char List.mem_cons_self
      rw [Spot.operatorKind?_eq_none_iff]
      refine ⟨?_, ?_, ?_, ?_, ?_⟩ <;> rintro rfl <;> exact absurd begins (by decide)
    have leads : (Spot.awaiting chained depth).run ['O'] = some ⟨.complete, chained, depth⟩ := rfl
    have stuck : (Spot.mk .complete chained depth).Stuck (char :: identifier ++ rest) :=
      Spot.step_complete_of_foreign noOperator
    simp only [readElement, letterToken, kindOfValue?_letter,
      current_identifier nonempty alphanumeric stops, ok_bind, if_true]
    exact .failed (.after ['O'] leads (.here stuck trivial rfl))
  · rw [readElement_named isOpen nonempty alphanumeric stops]
    refine .passed (kind.letter :: identifier) rfl ?_
      (Spot.run_named isOpen nonempty alphanumeric chained depth) (.inr ⟨rfl, stops⟩) trivial ?_
    · rw [List.length_cons]
      omega
    · simp [cursorAt, scan_named nonempty alphanumeric stops, TokenStream.push]

theorem Spot.step_open (chained : Bool) (depth : Nat) :
    (Spot.awaiting chained depth).step '(' = some (.awaiting chained (depth + 1)) :=
  rfl

/-- A group is read up to its closing parenthesis. -/
theorem readCircuit_open_trail {depth room : Nat} {chained : Bool}
    (inside : ∀ position input,
      Trail (.awaiting chained (depth + 1)) chained (depth + 1) (fun _ => True) 1 position input
        (readCircuit room (cursorAt position input)))
    (position : Nat) (input : List Char) :
    Trail (.awaiting chained depth) chained depth (fun _ => True) 1 position ('(' :: input)
      (readCircuit (room + 1) (cursorAt position ('(' :: input))) := by
  have isOpen : operatorKind? '(' = some .openGroup := rfl
  have isClose : operatorKind? ')' = some .closeGroup := rfl
  have opened : (Spot.awaiting chained depth).run ['('] =
      some (.awaiting chained (depth + 1)) := rfl
  rw [readCircuit_open]
  cases current : (cursorAt (position + 1) input).current with
  | error fault =>
      refine .failed (.after ['('] opened (.of_current current ?_))
      intro char rest _ noOperator noLetter
      exact Spot.step_awaiting_of_foreign noOperator noLetter
  | ok next =>
      rw [ok_bind]
      split
      · next closes =>
        obtain ⟨rest, rfl⟩ := input_of_current ')' isClose current closes
        have stuck : (Spot.awaiting chained (depth + 1)).Stuck (')' :: rest) := rfl
        exact .failed (.behind (Spot.step_open chained depth) stuck trivial rfl)
      · have group := readMembers_trail inside (position + 1) input
        generalize readMembers (readCircuit room) (cursorAt (position + 1) input) = outcome
          at group ⊢
        cases group with
        | failed fails => exact .failed (.after ['('] opened fails)
        | @passed value passed rest final last same placed leads behind ahead fewer =>
            simp only [ok_bind]
            have throughGroup : (Spot.awaiting chained depth).run ('(' :: passed) = some last :=
              leads
            subst same
            cases closed : (cursorAt final rest).expect .closeGroup "'+', '||' or ')'" with
            | error fault =>
                have fails : Fails last final rest fault := by
                  refine .of_expect closed behind fun token current otherKind => ?_
                  exact behind.stuck ahead.1 ahead.2 (head_ne_of_current isClose current otherKind)
                have sameEnd : final = position + ('(' :: passed).length := by
                  rw [placed, List.length_cons]
                  omega
                rw [sameEnd] at fails
                exact .failed (.after _ throughGroup fails)
            | ok cursor =>
                obtain ⟨others, rfl, rfl⟩ := expect_operator ')' isClose closed
                refine .passed ('(' :: passed ++ [')']) (by simp) ?_ ?_ (.inl rfl)
                  trivial ?_
                · simp only [placed, List.length_append, List.length_cons, List.length_nil]
                  omega
                · rw [Spot.run_append, throughGroup, Option.bind_some, behind.run_eq]
                  rfl
                · rw [tokens_length_operator isClose] at fewer
                  rw [tokens_length_operator isOpen]
                  omega

/-- Circuits are followed if those with one group more around them are. -/
theorem readCircuit_trail_step {depth room : Nat} {chained : Bool}
    (limit : depth + room = nestingLimit)
    (inside : ∀ smaller, room = smaller + 1 → ∀ position input,
      Trail (.awaiting chained (depth + 1)) chained (depth + 1) (fun _ => True) 1 position input
        (readCircuit smaller (cursorAt position input)))
    (position : Nat) (input : List Char) :
    Trail (.awaiting chained depth) chained depth (fun _ => True) 1 position input
      (readCircuit room (cursorAt position input)) := by
  cases opening input with
  | nothing =>
      have stuck : (Spot.awaiting chained depth).Stuck [] := by simp [Spot.Stuck, Spot.Ends,
        Spot.awaiting]
      rw [readCircuit.eq_def]
      exact .failed (.here stuck trivial rfl)
  | @operator char kind rest found =>
      by_cases isGroup : kind = .openGroup
      · subst isGroup
        obtain rfl : char = '(' := operatorKind?_injective found rfl
        cases room with
        | zero =>
            have deep : nestingLimit < (Spot.awaiting chained (depth + 1)).depth := by
              show nestingLimit < depth + 1
              omega
            rw [readCircuit_open_zero]
            exact .failed (.tooDeep ['('] rfl rfl deep rfl)
        | succ room => exact readCircuit_open_trail (inside room rfl) position rest
      · have notOpen : char ≠ '(' := by
          rintro rfl
          cases found
          exact isGroup rfl
        have noLetter : ElementKind.ofLetter? char = none := by
          unfold operatorKind? at found
          split at found <;> first | rfl | cases found
        have stuck : (Spot.awaiting chained depth).Stuck (char :: rest) :=
          Spot.step_awaiting_eq_none notOpen noLetter
        have notLetter := (kind_ne_of_operatorKind? found).2.2.1
        have notCircuit := (kind_ne_of_operatorKind? found).2.1
        rw [readCircuit.eq_def]
        simp only [current_operator found, ok_bind]
        exact .failed (.here stuck trivial rfl)
  | openCircuit stops =>
      rw [readCircuit.eq_def]
      simp only [current_openCircuit stops, advance_openCircuit stops, ok_bind]
      refine .passed ['O'] rfl rfl rfl (.inl rfl) trivial ?_
      simp [cursorAt, scan_openCircuit stops, TokenStream.push]
  | named nonempty alphanumeric stops =>
      rw [readCircuit.eq_def]
      simp only [current_named nonempty alphanumeric stops, ok_bind]
      exact readElement_trail nonempty alphanumeric stops chained depth position
  | unnamed notOpen stops =>
      rw [readCircuit.eq_def]
      simp only [current_unnamed notOpen stops, advance_unnamed notOpen stops, ok_bind]
      exact readElement_unnamed notOpen stops chained depth position
  | @foreign char rest noOperator noLetter =>
      have stuck : (Spot.awaiting chained depth).Stuck (char :: rest) :=
        Spot.step_awaiting_of_foreign noOperator noLetter
      rw [readCircuit.eq_def]
      simp only [current_foreign noOperator noLetter]
      exact .failed (.here stuck trivial rfl)

/-- The groups that are open already and those that a reader may still open are as
many as may be open at all. -/
theorem readCircuit_trail {depth room : Nat} (limit : depth + room = nestingLimit)
    (chained : Bool) (position : Nat) (input : List Char) :
    Trail (.awaiting chained depth) chained depth (fun _ => True) 1 position input
      (readCircuit room (cursorAt position input)) := by
  induction room generalizing depth position input with
  | zero => exact readCircuit_trail_step limit (by simp) position input
  | succ room ih =>
      refine readCircuit_trail_step limit ?_ position input
      rintro smaller same
      obtain rfl := Nat.succ.inj same
      exact ih (by omega)

/-! ## Documents -/

/-- No link follows. -/
def LacksLink (rest : List Char) : Prop :=
  rest.head? ≠ some '|' ∧ rest.head? ≠ some '-'

theorem lacksLink_of_current {position : Nat} {input : List Char} {token : Token}
    (current : (cursorAt position input).current = .ok token)
    (noLink : linkKind? token.kind = none) : LacksLink input := by
  constructor
  · refine head_ne_of_current (show operatorKind? '|' = some .pipe from rfl) current ?_
    intro isPipe
    simp [isPipe, linkKind?] at noLink
  · refine head_ne_of_current (show operatorKind? '-' = some .dash from rfl) current ?_
    intro isDash
    simp [isDash, linkKind?] at noLink

/-- Outside of groups only the sign of a link leads on from behind a circuit, and
only if the document is a chain of links. -/
theorem Spot.IsBehind.stuck_of_lacksLink {spot : Spot} {chained : Bool} {rest : List Char}
    (behind : spot.IsBehind chained 0 rest) (noLink : chained = true → LacksLink rest)
    (nonempty : rest ≠ []) : spot.Stuck rest := by
  obtain ⟨char, rest, rfl⟩ := List.exists_cons_of_ne_nil nonempty
  show spot.step char = none
  rw [behind.step_eq]
  cases chained with
  | false => simp [step, leave]
  | true =>
      have noLink := noLink rfl
      have notBar : char ≠ '|' := by simpa using noLink.1
      have notDash : char ≠ '-' := by simpa using noLink.2
      simp [step, leave, notBar, notDash]

/-- A place where a link can begin: behind a circuit of a chain, or in front of the
first one. -/
def Spot.IsLinkPlace (rest : List Char) (spot : Spot) : Prop :=
  spot.IsBehind true 0 rest ∨ spot = .first ∧ ¬LacksLink rest

theorem Spot.IsLinkPlace.step_sign {spot : Spot} {kind : LinkKind} {rest : List Char}
    (place : spot.IsLinkPlace (kind.sign :: rest)) :
    spot.step kind.sign = some (.awaiting true 0) := by
  rcases place with behind | ⟨rfl, -⟩
  · rw [behind.step_eq]
    cases kind <;> rfl
  · cases kind <;> rfl

theorem Spot.IsLinkPlace.step_foreign {spot : Spot} {char : Char} {rest : List Char}
    (place : spot.IsLinkPlace (char :: rest)) (noOperator : operatorKind? char = none) :
    spot.step char = none := by
  rcases place with behind | ⟨rfl, isLink⟩
  · rw [behind.step_eq]
    exact step_complete_of_foreign noOperator
  · obtain ⟨notBar, notDash, -⟩ := operatorKind?_eq_none_iff.mp noOperator
    exact absurd ⟨by simpa using notBar, by simpa using notDash⟩ isLink

/-- Links are read up to a place where none begins. -/
theorem readLinks_trail {steps : Nat} (position : Nat) {input : List Char} {spot : Spot}
    (place : spot.IsLinkPlace input)
    (enough : (cursorAt position input).tokens.length < steps) :
    Trail spot true 0 LacksLink 0 position input
      (readLinks (readCircuit nestingLimit) steps (cursorAt position input)) := by
  induction steps generalizing position input spot with
  | zero => omega
  | succ steps ih =>
      rw [readLinks]
      cases current : (cursorAt position input).current with
      | error fault =>
          refine .failed (.of_current current ?_)
          intro char rest same noOperator _
          subst same
          exact place.step_foreign noOperator
      | ok token =>
          rw [ok_bind]
          split
          · next noLink =>
            have ahead := lacksLink_of_current current noLink
            rcases place with behind | ⟨-, isLink⟩
            · exact .passed [] rfl rfl rfl behind ahead (Nat.le_refl _)
            · exact absurd ahead isLink
          · next kind isLink =>
            have operator := sign_of_linkKind? isLink
            obtain ⟨rest, rfl⟩ := input_of_current kind.sign operator current rfl
            rw [advance_operator operator]
            rw [tokens_length_operator operator] at enough
            have signed : spot.run [kind.sign] = some (.awaiting true 0) := by
              rw [Spot.run_singleton, place.step_sign]
            have target := readCircuit_trail (Nat.zero_add nestingLimit) true (position + 1) rest
            generalize readCircuit nestingLimit (cursorAt (position + 1) rest) = outcome
              at target ⊢
            cases target with
            | failed fails => exact .failed (.after [kind.sign] signed fails)
            | @passed value passed others behindTarget last same placed leads behind ahead fewer =>
                simp only [ok_bind]
                have more := ih behindTarget (.inl behind) (by omega)
                subst same
                refine Trail.after (kind.sign :: passed) ?_ ?_ ?_ more
                  (⟨kind, value⟩ :: ·)
                · rw [← List.singleton_append, Spot.run_append, signed]
                  exact leads
                · rw [placed, List.length_cons]
                  omega
                · rw [List.cons_append, tokens_length_operator operator]
                  omega

theorem Spot.step_first {char : Char} (notBar : char ≠ '|') (notDash : char ≠ '-') :
    Spot.first.step char = (Spot.awaiting false 0).step char := by
  simp [first, awaiting, step, enter, notBar, notDash]

theorem Spot.run_first {char : Char} {rest : List Char} (noLink : LacksLink (char :: rest))
    (more : List Char) :
    Spot.first.run (char :: more) = (Spot.awaiting false 0).run (char :: more) := by
  have notBar : char ≠ '|' := by simpa using noLink.1
  have notDash : char ≠ '-' := by simpa using noLink.2
  rw [run, run, step_first notBar notDash]

/-- Without a link in front the start of a document is as good as any other place in
front of a circuit. -/
theorem Fails.of_awaiting {position : Nat} {input : List Char} {fault : Fault}
    (noLink : LacksLink input) (fails : Fails (.awaiting false 0) position input fault) :
    Fails .first position input fault := by
  cases fails with
  | @stuck passed rest last same leads stuck reached bounded ofPlace =>
      cases passed with
      | nil =>
          cases leads
          obtain rfl : input = rest := same
          refine .stuck [] rfl rfl ?_ reached bounded ofPlace
          cases input with
          | nil => simp [Spot.Stuck, Spot.Ends, Spot.first]
          | cons char rest =>
              have notBar : char ≠ '|' := by simpa using noLink.1
              have notDash : char ≠ '-' := by simpa using noLink.2
              exact (Spot.step_first notBar notDash).trans stuck
      | cons char passed =>
          subst same
          rw [← Spot.run_first noLink] at leads
          exact .stuck _ rfl leads stuck reached bounded ofPlace
  | @tooDeep passed rest last same leads deep isDeep =>
      cases passed with
      | nil =>
          cases leads
          exact absurd deep (by decide)
      | cons char passed =>
          subst same
          rw [← Spot.run_first noLink] at leads
          exact .tooDeep _ rfl leads deep isDeep

theorem Trail.of_awaiting {α : Type} {depth count position : Nat} {Ahead : List Char → Prop}
    {input : List Char} {outcome : Except Fault (α × Cursor)} (noLink : LacksLink input)
    (trail : Trail (.awaiting false 0) false depth Ahead count position input outcome) :
    Trail .first false depth Ahead count position input outcome := by
  cases trail with
  | failed fails => exact .failed (fails.of_awaiting noLink)
  | @passed value passed rest final last same placed leads behind ahead fewer =>
      cases passed with
      | nil =>
          cases leads
          simp [Spot.IsBehind, Spot.awaiting] at behind
      | cons char passed =>
          subst same
          rw [← Spot.run_first noLink] at leads
          exact .passed _ rfl placed leads behind ahead fewer

/-- The root of a document is read up to a place outside of all groups. -/
theorem readRoot_trail (input : List Char) :
    ∃ chained, Trail .first chained 0 (fun rest => chained = true → LacksLink rest) 0 0 input
      (readRoot (cursorAt 0 input)) := by
  rw [readRoot]
  cases current : (cursorAt 0 input).current with
  | error fault =>
      refine ⟨false, .failed (.of_current current ?_)⟩
      intro char rest _ noOperator noLetter
      obtain ⟨notBar, notDash, -⟩ := Spot.operatorKind?_eq_none_iff.mp noOperator
      rw [Spot.step_first notBar notDash]
      exact Spot.step_awaiting_of_foreign noOperator noLetter
  | ok token =>
      rw [ok_bind]
      split
      · next isLink =>
        obtain ⟨kind, isLink⟩ := Option.isSome_iff_exists.mp isLink
        have operator := sign_of_linkKind? isLink
        obtain ⟨rest, rfl⟩ := input_of_current kind.sign operator current rfl
        have begins : ¬LacksLink (kind.sign :: rest) := by
          cases kind <;> simp [LacksLink, LinkKind.sign]
        have links := readLinks_trail 0 (.inr ⟨rfl, begins⟩) (Nat.lt_succ_self _)
        have trail := links.after [] rfl rfl (Nat.le_refl _) Circuit.twoport
        exact ⟨true, trail.imp (fun rest ahead _ => ahead) (Nat.le_refl 0)⟩
      · next noLink =>
        have noLink : LacksLink input :=
          lacksLink_of_current current (Option.not_isSome_iff_eq_none.mp noLink)
        have trail := readCircuit_trail (Nat.zero_add nestingLimit) false 0 input
        exact ⟨false, (trail.of_awaiting noLink).imp (by simp) (Nat.zero_le 1)⟩

/-- What parsing does is told by the spots: it ends where a document can end, or it
fails. -/
theorem parse_trail (text : String) :
    (∃ circuit last, parse text = .ok circuit ∧ Spot.first.run text.toList = some last ∧
      last.Ends) ∨
    ∃ fault, parse text = .error fault ∧ Fails .first 0 text.toList fault := by
  obtain ⟨chained, root⟩ := readRoot_trail text.toList
  rw [parse, parseTokens, ofStream_tokenize]
  generalize readRoot (cursorAt 0 text.toList) = outcome at root ⊢
  cases root with
  | failed fails => exact .inr ⟨_, rfl, fails⟩
  | @passed value passed rest final last same placed leads behind ahead fewer =>
      simp only [ok_bind]
      cases ended : (cursorAt final rest).expect .endOfInput "end of input" with
      | ok cursor =>
          obtain rfl := input_of_expect_endOfInput ended
          rw [List.append_nil] at same
          subst same
          exact .inl ⟨value, last, rfl, leads, behind.ends_iff.mpr rfl⟩
      | error fault =>
          have fails : Fails last final rest fault := by
            refine .of_expect ended behind fun token current otherKind => ?_
            refine behind.stuck_of_lacksLink ahead ?_
            rintro rfl
            cases current
            exact otherKind rfl
          rw [placed] at fails
          rw [same]
          exact .inr ⟨fault, rfl, .after passed leads fails⟩

end Reading

end Schematic
