import Schematic.Proofs.Outcome
import Schematic.Proofs.Reading.Joined

/-!
# Streams that are put together by hand

A stream with joined bars means the same as the text that it stands for: it is
read as the same circuit, or a fault of the same kind is met at the same place.
The one exception is a stream that stops behind a joined token and has no end of
input.  There the end is taken to be one character in front of the end of the
text.
-/

namespace Schematic

namespace Reading

variable (finish : Nat) (lag : Int)

/-- A fault in the text beside one in a stream with joined bars: both are of the
same kind, and in the same place, but for the end of the text. -/
structure Fault.Beside (fault other : Fault) : Prop where
  heading : other.cause.heading = fault.cause.heading
  position : other.position =
    if fault.position = finish then finish - lag else fault.position

/-- Two readers side by side: both fail, or both read the same and pass at least
`count` tokens. -/
inductive Agree {α : Type} (depth count : Nat) (text joined : Cursor) :
    Except Fault (α × Cursor) → Except Fault (α × Cursor) → Prop where
  | read {value : α} {textNext joinedNext : Cursor} :
      Twin finish lag depth textNext joinedNext →
      textNext.tokens.length + count ≤ text.tokens.length →
      joinedNext.tokens.length + count ≤ joined.tokens.length →
      Agree depth count text joined (.ok (value, textNext)) (.ok (value, joinedNext))
  | failed {fault other : Fault} : fault.Beside finish lag other →
      Agree depth count text joined (.error fault) (.error other)

/-- A reader that agrees on all cursors side by side, with `depth` open groups. -/
def Agrees {α : Type} (depth count : Nat) (reader : Reader α) : Prop :=
  ∀ text joined, Twin finish lag depth text joined →
    Agree finish lag depth count text joined (reader text) (reader joined)

/-- Two operators side by side: both fail, both are missing, or both are read. -/
inductive AgreeOperator (depth : Nat) (text joined : Cursor) :
    Except Fault (Option Cursor) → Except Fault (Option Cursor) → Prop where
  | missing : AgreeOperator depth text joined (.ok none) (.ok none)
  | read {textNext joinedNext : Cursor} :
      Twin finish lag depth textNext joinedNext →
      textNext.tokens.length < text.tokens.length →
      joinedNext.tokens.length < joined.tokens.length →
      AgreeOperator depth text joined (.ok (some textNext)) (.ok (some joinedNext))
  | failed {fault other : Fault} : fault.Beside finish lag other →
      AgreeOperator depth text joined (.error fault) (.error other)

variable {finish lag} {depth : Nat} {text joined : Cursor}

/-! ## Faults -/

theorem Fault.Beside.of_same {fault other : Fault} (place : fault.position ≠ finish)
    (same : other.position = fault.position)
    (heading : other.cause.heading = fault.cause.heading) : fault.Beside finish lag other :=
  ⟨heading, by rw [if_neg place, same]⟩

theorem Fault.Beside.of_end {fault other : Fault} (place : fault.position = finish)
    (lags : other.position = finish - lag)
    (heading : other.cause.heading = fault.cause.heading) : fault.Beside finish lag other :=
  ⟨heading, by rw [if_pos place, lags]⟩

/-! ## Steps -/

/-- Readers agree if their first steps do, and what they do from there on. -/
theorem Agree.bind {α β : Type} {behind count more : Nat} {textStart joinedStart : Cursor}
    {first other : Except Fault (α × Cursor)}
    {next otherNext : α × Cursor → Except Fault (β × Cursor)}
    (agree : Agree finish lag depth count text joined first other)
    (go : ∀ value textNext joinedNext, Twin finish lag depth textNext joinedNext →
      textNext.tokens.length + count ≤ text.tokens.length →
      joinedNext.tokens.length + count ≤ joined.tokens.length →
      Agree finish lag behind more textStart joinedStart
        (next (value, textNext)) (otherNext (value, joinedNext))) :
    Agree finish lag behind more textStart joinedStart (first >>= next) (other >>= otherNext) := by
  cases agree with
  | read twin fewer fewerJoined => exact go _ _ _ twin fewer fewerJoined
  | failed beside => exact .failed beside

/-! ## Operators -/

theorem readPlus_agrees (twin : Twin finish lag depth text joined) :
    AgreeOperator finish lag depth text joined (readPlus text) (readPlus joined) := by
  cases twin.facing with
  | ended seen other isEnd otherEnd =>
      simp only [readPlus, seen, other, ok_bind, isEnd, otherEnd]
      exact .missing
  | bars inside seen isBar _ _ other =>
      simp only [readPlus, seen, other, ok_bind, isBar]
      exact .missing
  | @same token seen other notEnd notJoined _ _ fewer fewerJoined _ behind =>
      simp only [readPlus, seen, other, ok_bind]
      by_cases isPlus : token.kind = .plus
      · rw [Token.depthBehind, isPlus] at behind
        simp only [isPlus, if_true]
        exact .read behind fewer fewerJoined
      · simp only [isPlus, if_false]
        exact .missing

/-- Inside of groups, two bars are the operator that their joined token is.  A bar
that is not joined has no second one behind it in either stream. -/
theorem readParallel_agrees (inside : 0 < depth) (twin : Twin finish lag depth text joined) :
    AgreeOperator finish lag depth text joined (readParallel text) (readParallel joined) := by
  cases twin.facing with
  | ended seen other isEnd otherEnd =>
      simp only [readParallel, seen, other, ok_bind, isEnd, otherEnd]
      exact .missing
  | bars _ seen isBar nextSeen nextBar other _ fewer fewerJoined behind =>
      simp only [readParallel, seen, other, ok_bind, isBar, nextSeen, nextBar]
      exact .read behind fewer fewerJoined
  | @same token seen other notEnd notJoined place single fewer fewerJoined _ behind =>
      simp only [readParallel, seen, other, ok_bind, notJoined, if_false]
      by_cases isBar : token.kind = .pipe
      · have alone := single inside isBar
        simp only [isBar, if_true]
        cases behind.facing with
        | ended nextSeen nextOther nextEnd otherEnd =>
            simp only [nextSeen, nextOther, ok_bind, nextEnd, otherEnd]
            exact .failed (.of_same place rfl rfl)
        | bars _ nextSeen nextBar => exact absurd nextBar (alone _ nextSeen)
        | same nextSeen nextOther =>
            simp only [nextSeen, nextOther, ok_bind, alone _ nextSeen, if_false]
            exact .failed (.of_same place rfl rfl)
      · simp only [isBar, if_false]
        exact .missing

/-! ## Chains and groups -/

/-- With enough steps for the tokens that are left, chains agree if their items
and their operators do. -/
theorem readChain_agrees {α : Type} {item : Reader α} {operator : OperatorReader}
    (items : Agrees finish lag depth 1 item)
    (operators : ∀ text joined, Twin finish lag depth text joined →
      AgreeOperator finish lag depth text joined (operator text) (operator joined))
    {steps joinedSteps : Nat} (twin : Twin finish lag depth text joined)
    (enough : text.tokens.length ≤ steps) (joinedEnough : joined.tokens.length ≤ joinedSteps) :
    Agree finish lag depth 1 text joined
      (readChain item operator steps text) (readChain item operator joinedSteps joined) := by
  induction steps generalizing text joined joinedSteps with
  | zero => exact absurd (List.length_eq_zero_iff.mp (by omega)) twin.tokens.ne_nil
  | succ steps ih =>
      cases joinedSteps with
      | zero =>
          rw [readChain, readChain]
          -- Nothing is left in front of the other item, so both of them fail.
          have both := items text joined twin
          generalize item text = first at both ⊢
          generalize item joined = other at both ⊢
          cases both with
          | read _ _ fewer => omega
          | failed beside => exact .failed beside
      | succ joinedSteps =>
          rw [readChain, readChain]
          apply (items text joined twin).bind
          intro value textNext joinedNext behind fewer fewerJoined
          dsimp only
          have both := operators textNext joinedNext behind
          generalize operator textNext = found at both ⊢
          generalize operator joinedNext = other at both ⊢
          cases both with
          | missing => exact .read behind fewer fewerJoined
          | failed beside => exact .failed beside
          | @read textLast joinedLast last fewerLast fewerJoinedLast =>
              apply (ih last (by omega) (by omega)).bind
              intro values textEnd joinedEnd atEnd passed passedJoined
              dsimp only
              exact .read atEnd (by omega) (by omega)

theorem readBranches_agrees {circuit : Reader Circuit} (inside : 0 < depth)
    (circuits : Agrees finish lag depth 1 circuit) :
    Agrees finish lag depth 1 (readBranches circuit) := by
  intro text joined twin
  apply (readChain_agrees circuits (fun _ _ => readParallel_agrees inside) twin
    (Nat.le_refl _) (Nat.le_refl _)).bind
  intro branches textNext joinedNext behind fewer fewerJoined
  exact .read behind fewer fewerJoined

theorem readMembers_agrees {circuit : Reader Circuit} (inside : 0 < depth)
    (circuits : Agrees finish lag depth 1 circuit) :
    Agrees finish lag depth 1 (readMembers circuit) := by
  intro text joined twin
  apply (readChain_agrees (readBranches_agrees inside circuits) (fun _ _ => readPlus_agrees) twin
    (Nat.le_refl _) (Nat.le_refl _)).bind
  intro members textNext joinedNext behind fewer fewerJoined
  exact .read behind fewer fewerJoined

/-! ## Elements and groups -/

theorem readElement_agrees {letter : Token} (place : letter.position ≠ finish) :
    Agrees finish lag depth 0 (readElement letter) := by
  intro text joined twin
  unfold readElement
  cases kindOfValue? letter.value with
  | none => exact .failed (.of_same place rfl rfl)
  | some kind =>
      dsimp only
      by_cases isOpen : kind = .openCircuit
      · cases twin.facing with
        | ended seen other _ _ isFinish otherFinish =>
            simp only [seen, other, ok_bind, isOpen, if_true]
            exact .failed (.of_end isFinish otherFinish rfl)
        | bars _ seen _ _ _ other nextPlace =>
            simp only [seen, other, ok_bind, isOpen, if_true]
            exact .failed (.of_same nextPlace rfl rfl)
        | same seen other _ _ nextPlace =>
            simp only [seen, other, ok_bind, isOpen, if_true]
            exact .failed (.of_same nextPlace rfl rfl)
      · cases twin.facing with
        | ended seen other isEnd otherEnd =>
            simp only [seen, other, ok_bind, isOpen, isEnd, otherEnd]
            exact .failed (.of_same place rfl rfl)
        | bars _ seen isBar _ _ other =>
            simp only [seen, other, ok_bind, isOpen, isBar]
            exact .failed (.of_same place rfl rfl)
        | @same next seen other _ _ _ _ fewer fewerJoined _ behind =>
            simp only [seen, other, ok_bind, isOpen, if_false]
            by_cases isIdentifier : next.kind = .identifier
            · rw [Token.depthBehind, isIdentifier] at behind
              simp only [isIdentifier, if_true]
              exact .read behind (by omega) (by omega)
            · simp only [isIdentifier, if_false]
              exact .failed (.of_same place rfl rfl)

/-- Where a group should end, both streams have a closing parenthesis, or neither
of them has one. -/
theorem expect_closeGroup_agrees {α : Type} {value : α} (expected : String)
    (twin : Twin finish lag (depth + 1) text joined) :
    Agree finish lag depth 0 text joined
      (text.expect .closeGroup expected >>= fun cursor => pure (value, cursor))
      (joined.expect .closeGroup expected >>= fun cursor => pure (value, cursor)) := by
  cases twin.facing with
  | ended seen other isEnd otherEnd isFinish otherFinish =>
      simp only [Cursor.expect, seen, other, ok_bind, isEnd, otherEnd]
      exact .failed (.of_end isFinish otherFinish rfl)
  | bars _ seen isBar _ _ other place =>
      simp only [Cursor.expect, seen, other, ok_bind, isBar]
      exact .failed (.of_same place rfl rfl)
  | @same token seen other _ _ place _ fewer fewerJoined _ behind =>
      simp only [Cursor.expect, seen, other, ok_bind]
      by_cases closes : token.kind = .closeGroup
      · rw [Token.depthBehind, closes] at behind
        simp only [closes, if_true]
        exact .read behind (by omega) (by omega)
      · simp only [closes, if_false]
        exact .failed (.of_same place rfl rfl)

theorem Agree.mono {α : Type} {count more : Nat} {textStart joinedStart : Cursor}
    {first other : Except Fault (α × Cursor)}
    (agree : Agree finish lag depth count text joined first other)
    (fewer : text.tokens.length + more ≤ textStart.tokens.length + count)
    (fewerJoined : joined.tokens.length + more ≤ joinedStart.tokens.length + count) :
    Agree finish lag depth more textStart joinedStart first other := by
  cases agree with
  | read twin passed passedJoined => exact .read twin (by omega) (by omega)
  | failed beside => exact .failed beside

/-- Reads a group behind its opening parenthesis; `empty` is the fault of a group
that holds nothing. -/
def readGroup (circuit : Reader Circuit) (empty : Fault) : Reader Circuit := fun inner => do
  let next ← inner.current
  if next.kind = .closeGroup then
    throw empty
  else
    let (group, cursor) ← readMembers circuit inner
    let cursor ← cursor.expect .closeGroup "'+', '||' or ')'"
    return (group, cursor)

/-- Behind an opening parenthesis the streams hold the same group, or both of them
hold nothing before the closing one. -/
theorem readGroup_agrees {circuit : Reader Circuit}
    (circuits : Agrees finish lag (depth + 1) 1 circuit) (empty : Fault)
    (place : empty.position ≠ finish) (twin : Twin finish lag (depth + 1) text joined) :
    Agree finish lag depth 0 text joined
      (readGroup circuit empty text) (readGroup circuit empty joined) := by
  have filled : Agree finish lag depth 0 text joined
      (readMembers circuit text >>= fun (members, cursor) =>
        cursor.expect .closeGroup "'+', '||' or ')'" >>= fun cursor => pure (members, cursor))
      (readMembers circuit joined >>= fun (members, cursor) =>
        cursor.expect .closeGroup "'+', '||' or ')'" >>= fun cursor => pure (members, cursor)) := by
    apply (readMembers_agrees (Nat.succ_pos depth) circuits text joined twin).bind
    intro members textNext joinedNext behind fewer fewerJoined
    exact (expect_closeGroup_agrees _ behind).mono (by omega) (by omega)
  unfold readGroup
  cases twin.facing with
  | ended seen other isEnd otherEnd =>
      simp only [seen, other, ok_bind, isEnd, otherEnd]
      exact filled
  | bars _ seen isBar _ _ other =>
      simp only [seen, other, ok_bind, isBar]
      exact filled
  | @same token seen other =>
      simp only [seen, other, ok_bind]
      by_cases closes : token.kind = .closeGroup
      · simp only [closes, if_true]
        exact .failed (.of_same place rfl rfl)
      · simp only [closes, if_false]
        exact filled

/-- A circuit is read in the same way from both streams, however many groups may
still be opened. -/
theorem readCircuit_agrees (budget : Nat) : Agrees finish lag depth 1 (readCircuit budget) := by
  induction budget using Nat.strongRecOn generalizing depth with
  | _ budget ih =>
    intro text joined twin
    unfold readCircuit
    cases twin.facing with
    | ended seen other isEnd otherEnd isFinish otherFinish =>
        simp only [seen, other, ok_bind, isEnd, otherEnd]
        exact .failed (.of_end isFinish otherFinish rfl)
    | bars _ seen isBar _ _ other place =>
        simp only [seen, other, ok_bind, isBar]
        exact .failed (.of_same place rfl rfl)
    | @same token seen other _ _ place _ fewer fewerJoined sameOffset behind =>
        simp only [seen, other, ok_bind]
        rw [Token.depthBehind] at behind
        cases kind : token.kind <;> simp only [kind] at behind ⊢
        case openGroup =>
          cases budget with
          | zero => exact .failed ⟨rfl, behind.offset_eq sameOffset⟩
          | succ budget =>
              have inner := readGroup_agrees (ih budget (Nat.lt_succ_self budget))
                ⟨token.position, .emptyGroup⟩ place behind
              exact inner.mono (by omega) (by omega)
        case elementLetter =>
          exact (readElement_agrees place _ _ behind).mono (by omega) (by omega)
        case openCircuit => exact .read behind (by omega) (by omega)
        all_goals exact .failed (.of_same place rfl rfl)

/-! ## Documents -/

/-- A token that begins a link opens no group and closes none. -/
theorem depthBehind_of_linkKind? {token : Token} {kind : LinkKind}
    (links : linkKind? token.kind = some kind) : token.depthBehind depth = depth := by
  unfold Token.depthBehind
  split
  · next opens => simp [opens, linkKind?] at links
  · next closes => simp [closes, linkKind?] at links
  · rfl

/-- Outside of groups no bars are joined, so links begin at the same tokens. -/
theorem readLinks_agrees {circuit : Reader Circuit} (circuits : Agrees finish lag 0 1 circuit)
    {steps joinedSteps : Nat} (twin : Twin finish lag 0 text joined)
    (enough : text.tokens.length < steps) (joinedEnough : joined.tokens.length < joinedSteps) :
    Agree finish lag 0 0 text joined
      (readLinks circuit steps text) (readLinks circuit joinedSteps joined) := by
  induction steps generalizing text joined joinedSteps with
  | zero => omega
  | succ steps ih =>
      obtain ⟨joinedSteps, rfl⟩ : ∃ fewer, joinedSteps = fewer + 1 := ⟨joinedSteps - 1, by omega⟩
      rw [readLinks, readLinks]
      cases twin.facing with
      | ended seen other isEnd otherEnd =>
          simp only [seen, other, ok_bind, isEnd, otherEnd]
          exact .read twin (by omega) (by omega)
      | bars inside => omega
      | @same token seen other _ _ _ _ fewer fewerJoined _ behind =>
          simp only [seen, other, ok_bind]
          cases begins : linkKind? token.kind with
          | none => exact .read twin (by omega) (by omega)
          | some kind =>
              rw [depthBehind_of_linkKind? begins] at behind
              apply (circuits _ _ behind).bind
              intro target textNext joinedNext next passed passedJoined
              apply (ih next (by omega) (by omega)).bind
              intro rest textEnd joinedEnd atEnd passedRest passedJoinedRest
              dsimp only
              exact .read atEnd (by omega) (by omega)

theorem readRoot_agrees : Agrees finish lag 0 0 readRoot := by
  intro text joined twin
  have links : Agree finish lag 0 0 text joined
      (readLinks (readCircuit nestingLimit) (text.tokens.length + 1) text >>=
        fun read => pure (Circuit.twoport read.1, read.2))
      (readLinks (readCircuit nestingLimit) (joined.tokens.length + 1) joined >>=
        fun read => pure (Circuit.twoport read.1, read.2)) := by
    apply (readLinks_agrees (readCircuit_agrees nestingLimit) twin (Nat.lt_succ_self _)
      (Nat.lt_succ_self _)).bind
    intro links textNext joinedNext behind passed passedJoined
    exact .read behind passed passedJoined
  have single : Agree finish lag 0 0 text joined (readCircuit nestingLimit text)
      (readCircuit nestingLimit joined) :=
    (readCircuit_agrees nestingLimit text joined twin).mono (by omega) (by omega)
  unfold readRoot
  cases twin.facing with
  | ended seen other isEnd otherEnd =>
      simp only [seen, other, ok_bind, isEnd, otherEnd]
      exact single
  | bars inside => omega
  | @same token seen other =>
      simp only [seen, other, ok_bind]
      split
      · exact links
      · exact single

/-- At the start of a text stand two cursors side by side. -/
theorem twin_ofStream {text : String} (unbroken : (tokenize text).fault = none)
    (keepEnd : Bool) :
    Twin text.length (handBuilt keepEnd text).lag 0
      (.ofStream (tokenize text)) (.ofStream (handBuilt keepEnd text)) := by
  have tokens : Joined text.length (handBuilt keepEnd text).lag 0 0 (tokenize text).tokens
      (handBuilt keepEnd text).tokens := by
    apply joined_joinBars keepEnd (tokenize_follows unbroken)
    intro last isLast
    rw [TokenStream.lag, handBuilt, Option.mem_def.mp isLast]
  refine ⟨unbroken, rfl, tokens, fun (empty : (handBuilt keepEnd text).tokens = []) => ?_⟩
  rw [empty] at tokens
  have noText := tokens.finish_of_nil
  rw [TokenStream.lag, empty]
  change 0 = _ - 0
  omega

/-- Where a document should end, both streams do, or neither of them does. -/
theorem parseTokens_agrees {stream other : TokenStream}
    (twin : Twin finish lag 0 (.ofStream stream) (.ofStream other)) :
    (∃ circuit, parseTokens stream = .ok circuit ∧ parseTokens other = .ok circuit) ∨
    ∃ fault fault', parseTokens stream = .error fault ∧ parseTokens other = .error fault' ∧
      fault.Beside finish lag fault' := by
  have both := readRoot_agrees _ _ twin
  unfold parseTokens
  generalize readRoot (.ofStream stream) = first at both ⊢
  generalize readRoot (.ofStream other) = second at both ⊢
  cases both with
  | failed beside => exact .inr ⟨_, _, rfl, rfl, beside⟩
  | read behind =>
      simp only [ok_bind, Cursor.expect]
      cases behind.facing with
      | ended seen other isEnd otherEnd =>
          simp only [seen, other, ok_bind, isEnd, otherEnd]
          exact .inl ⟨_, rfl, rfl⟩
      | bars inside => omega
      | same seen other notEnd _ place =>
          simp only [seen, other, ok_bind, notEnd, if_false]
          exact .inr ⟨_, _, rfl, rfl, .of_same place rfl rfl⟩

/-- A stream with joined bars is read as the circuit of its text, or meets a fault
of the same kind.  The fault is in the same place, unless it is at the end of
the text and this end is missing behind a joined token. -/
theorem handBuilt_reads_alike (text : String) (unbroken : (tokenize text).fault = none)
    (keepEnd : Bool) :
    (∀ circuit, parse text = .ok circuit →
      parseTokens (handBuilt keepEnd text) = .ok circuit) ∧
    ∀ fault, parse text = .error fault →
      ∃ other, parseTokens (handBuilt keepEnd text) = .error other ∧
        other.cause.heading = fault.cause.heading ∧
        other.position =
          if keepEnd = false ∧ fault.position = text.length then
            fault.position - (handBuilt keepEnd text).lag
          else fault.position := by
  rcases parseTokens_agrees (twin_ofStream unbroken keepEnd) with
    ⟨circuit, read, readOther⟩ | ⟨fault, other, failed, failedOther, heading, position⟩
  · have parsed : parse text = .ok circuit := read
    rw [parsed]
    refine ⟨?_, fun fault same => by cases same⟩
    rintro _ ⟨⟩
    exact readOther
  · have parsed : parse text = .error fault := failed
    rw [parsed]
    refine ⟨fun circuit same => (by cases same), ?_⟩
    rintro _ ⟨⟩
    refine ⟨other, failedOther, heading, position.trans ?_⟩
    by_cases atEnd : fault.position = text.length
    · cases keepEnd with
      | true => simp [atEnd, lag_handBuilt_true unbroken]
      | false => simp [atEnd]
    · simp [atEnd]

theorem handBuilt_reads_alike_bars :
    (handBuilt false "(R1|||C2)").tokens[3]? = some ⟨.doublePipe, 3, none⟩ ∧
      ∃ other, parseTokens (handBuilt false "(R1|||C2)") = .error other ∧
        other.cause.heading = "Unexpected Token" ∧ other.position = 5 := by
  have refused : parse "(R1|||C2)" = .error ⟨5, .unexpectedToken "'|'" circuitStart⟩ := by
    apply eq_error_of_faultOf?
    decide +kernel
  have unbroken : (tokenize "(R1|||C2)").fault = none := by decide +kernel
  obtain ⟨-, faults⟩ := handBuilt_reads_alike "(R1|||C2)" unbroken false
  obtain ⟨other, failed, heading, position⟩ := faults _ refused
  exact ⟨by decide +kernel, other, failed, heading, position⟩

/-- Without an end of input, the fault behind an operator of one token is placed on
the second bar of the text, not behind it. -/
theorem missing_end_misplaced :
    parse "(R1||" = .error ⟨5, .unexpectedToken "end of input" circuitStart⟩ ∧
      parseTokens (handBuilt false "(R1||") =
        .error ⟨4, .unexpectedToken "end of input" circuitStart⟩ := by
  constructor
  · apply eq_error_of_faultOf?
    decide +kernel
  · apply eq_error_of_faultOf?
    decide +kernel

end Reading

end Schematic
