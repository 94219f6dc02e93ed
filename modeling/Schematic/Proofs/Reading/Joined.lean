import Schematic.Proofs.Reading.Stream

/-!
# Streams with joined bars

Every bar of a text is a token of its own.  A stream that is put together by
hand may hold one token for the two bars of a parallel operator instead, and it
may stop without an end of input.  This file sets such a stream beside the one
of the text, token by token.  A cursor on it sees the same tokens as a cursor
in the text, but for the joined ones.
-/

namespace Schematic

namespace Reading

/-- How many groups are open behind a token. -/
def Token.depthBehind (token : Token) (depth : Nat) : Nat :=
  match token.kind with
  | .openGroup => depth + 1
  | .closeGroup => depth - 1
  | _ => depth

/-- Joins the bars of tokens inside of groups, in pairs from the left; `depth` is
how many groups are open in front of the tokens. -/
def joinBars (depth : Nat) : List Token → List Token
  | first :: second :: rest =>
      if 0 < depth ∧ first.kind = .pipe ∧ second.kind = .pipe then
        ⟨.doublePipe, first.position, none⟩ :: joinBars depth rest
      else
        first :: joinBars (first.depthBehind depth) (second :: rest)
  | short => short

/-- Tokens with or without the last one. -/
def trimmed (keepEnd : Bool) (tokens : List Token) : List Token :=
  if keepEnd then tokens else tokens.dropLast

/-- The tokens of a text with joined bars, with or without the end of input. -/
def handBuilt (keepEnd : Bool) (text : String) : TokenStream where
  tokens := joinBars 0 (trimmed keepEnd (tokenize text).tokens)

/-- How many characters of the last token of a stream are not counted: a token
without a value counts as one character, also if it stands for two bars. -/
def lagOf (last : Token) : Int :=
  if last.kind = .doublePipe then 1 else 0

/-- How far in front of the end of its text a stream without an end of input
stops. -/
def TokenStream.lag (stream : TokenStream) : Int :=
  match stream.tokens.getLast? with
  | some last => lagOf last
  | none => 0

/-! ## The tokens of a text -/

/-- The tokens from an offset on to the end of a text, which is at `finish`.
Each one starts where the one before it ends. -/
inductive Follows (finish : Nat) : Int → List Token → Prop where
  | ended : Follows finish finish [⟨.endOfInput, finish, none⟩]
  | token (token : Token) {rest : List Token} :
      token.kind ≠ .endOfInput → token.kind ≠ .doublePipe →
      (token.kind = .pipe → token.value = none) → Follows finish token.finish rest →
      Follows finish token.position (token :: rest)

/-- A token without a value is one character wide. -/
theorem finish_of_value_none {token : Token} (none : token.value = .none) :
    token.finish = token.position + 1 := by
  simp [Token.finish, Token.width, none]

theorem finish_letterToken (position : Nat) (kind : ElementKind) :
    (letterToken position kind).finish = (position + 1 : Nat) := by
  simp [Token.finish, Token.width, letterToken]

theorem scan_follows {finish position : Nat} {input : List Char}
    (ends : finish = position + input.length)
    (unbroken : (scan position 0 input).fault = none) :
    Follows finish position (scan position 0 input).tokens := by
  induction size : input.length using Nat.strongRecOn generalizing position input with
  | _ size ih =>
    subst size
    cases opening input with
    | nothing =>
        subst ends
        exact .ended
    | @operator char kind rest found =>
        rw [List.length_cons] at ends ih
        rw [scan_operator found] at unbroken ⊢
        have behind := @ih rest.length (by omega) (position + 1) rest (by omega) unbroken rfl
        obtain ⟨notEnd, -, -, -, notJoined⟩ := kind_ne_of_operatorKind? found
        refine .token ⟨kind, position, none⟩ notEnd notJoined (fun _ => rfl) ?_
        rwa [finish_of_value_none rfl]
    | @openCircuit rest stops =>
        rw [List.length_cons] at ends ih
        rw [scan_openCircuit stops] at unbroken ⊢
        have behind := @ih rest.length (by omega) (position + 1) rest (by omega) unbroken rfl
        refine .token ⟨.openCircuit, position, none⟩ (by simp) (by simp) (fun _ => rfl) ?_
        rwa [finish_of_value_none rfl]
    | @named kind identifier rest nonempty alphanumeric stops =>
        have positive : 0 < identifier.length := List.length_pos_iff.mpr nonempty
        rw [List.length_cons, List.length_append] at ends ih
        rw [scan_named nonempty alphanumeric stops] at unbroken ⊢
        have behind := @ih rest.length (by omega) (position + 1 + identifier.length) rest
          (by omega) unbroken rfl
        refine .token (letterToken position kind) (by simp [letterToken]) (by simp [letterToken])
          (by simp [letterToken]) ?_
        rw [finish_letterToken]
        refine .token ⟨.identifier, (position + 1 : Nat), some (String.ofList identifier)⟩
          (by simp) (by simp) (by simp) ?_
        have width : max 1 identifier.length = identifier.length := by omega
        simpa [Token.finish, Token.width, width] using behind
    | @unnamed kind rest notOpen stops =>
        rw [List.length_cons] at ends ih
        rw [scan_unnamed notOpen stops] at unbroken ⊢
        have behind := @ih rest.length (by omega) (position + 1) rest (by omega) unbroken rfl
        refine .token (letterToken position kind) (by simp [letterToken]) (by simp [letterToken])
          (by simp [letterToken]) ?_
        rwa [finish_letterToken]
    | foreign rest noOperator noLetter =>
        rw [scan_foreign noOperator noLetter] at unbroken
        cases unbroken

/-- The tokens of a text that is read to its end follow one another. -/
theorem tokenize_follows {text : String} (unbroken : (tokenize text).fault = none) :
    Follows text.length 0 (tokenize text).tokens :=
  scan_follows (by rw [String.length_toList, Nat.zero_add]) unbroken

theorem Follows.le {finish : Nat} {position : Int} {tokens : List Token}
    (follows : Follows finish position tokens) : position ≤ finish := by
  induction follows with
  | ended => exact Int.le_refl _
  | token token _ _ _ _ ih =>
      have wide : 1 ≤ token.width := Nat.le_max_left 1 _
      rw [Token.finish] at ih
      omega

theorem getLast?_cons_of_mem {first last : Token} {rest : List Token}
    (isLast : last ∈ rest.getLast?) : last ∈ (first :: rest).getLast? := by
  cases rest with
  | nil => cases isLast
  | cons second rest => exact isLast

theorem Follows.getLast? {finish : Nat} {position : Int} {tokens : List Token}
    (follows : Follows finish position tokens) :
    (⟨.endOfInput, finish, none⟩ : Token) ∈ tokens.getLast? := by
  induction follows with
  | ended => rfl
  | token _ _ _ _ _ ih => exact getLast?_cons_of_mem ih

theorem Follows.position_lt {finish : Nat} {token : Token} {tokens : List Token}
    (follows : Follows finish token.finish tokens) : token.position < finish := by
  have wide : 1 ≤ token.width := Nat.le_max_left 1 _
  have behind := follows.le
  rw [Token.finish] at behind
  omega

/-! ## Two streams side by side -/

section

variable (finish : Nat) (lag : Int)

/-- The tokens of a text, from an offset on, beside those of a stream with joined
bars that stops at `finish - lag`. -/
inductive Joined : (depth : Nat) → Int → List Token → List Token → Prop where
  | kept {depth : Nat} : lag = 0 →
      Joined depth finish [⟨.endOfInput, finish, none⟩] [⟨.endOfInput, finish, none⟩]
  | omitted {depth : Nat} : Joined depth finish [⟨.endOfInput, finish, none⟩] []
  | bars {depth : Nat} {first second : Token} {rest joined : List Token} :
      0 < depth → first.kind = .pipe → second.kind = .pipe → first.position < finish →
      second.finish = first.position + 2 → (joined = [] → lag = 1) →
      Joined depth second.finish rest joined →
      Joined depth first.position (first :: second :: rest)
        (⟨.doublePipe, first.position, none⟩ :: joined)
  | same {depth : Nat} {token : Token} {rest joined : List Token} :
      token.kind ≠ .endOfInput → token.kind ≠ .doublePipe → token.position < finish →
      (0 < depth → token.kind = .pipe → ∀ next ∈ rest.head?, next.kind ≠ .pipe) →
      (joined = [] → lag = 0) →
      Joined (token.depthBehind depth) token.finish rest joined →
      Joined depth token.position (token :: rest) (token :: joined)

end

variable {finish : Nat} {lag : Int}

theorem trimmed_cons (keepEnd : Bool) (token : Token) {rest : List Token} (more : rest ≠ []) :
    trimmed keepEnd (token :: rest) = token :: trimmed keepEnd rest := by
  cases keepEnd with
  | true => rfl
  | false => exact List.dropLast_cons_of_ne_nil more

theorem head?_trimmed {keepEnd : Bool} {tokens : List Token} {token : Token}
    (head : token ∈ (trimmed keepEnd tokens).head?) : token ∈ tokens.head? := by
  cases tokens with
  | nil => cases keepEnd <;> exact head
  | cons first rest =>
      cases rest with
      | nil =>
          cases keepEnd with
          | true => exact head
          | false => cases head
      | cons second rest => rwa [trimmed_cons keepEnd first (by simp)] at head

theorem joinBars_bars {depth : Nat} (inside : 0 < depth) {first second : Token}
    (firstBar : first.kind = .pipe) (secondBar : second.kind = .pipe) (rest : List Token) :
    joinBars depth (first :: second :: rest) =
      ⟨.doublePipe, first.position, none⟩ :: joinBars depth rest := by
  rw [joinBars, if_pos ⟨inside, firstBar, secondBar⟩]

/-- Tokens that do not end with a bar keep their last token. -/
theorem getLast?_joinBars {depth : Nat} {tokens : List Token} {last : Token}
    (isLast : last ∈ tokens.getLast?) (notBar : last.kind ≠ .pipe) :
    last ∈ (joinBars depth tokens).getLast? := by
  fun_induction joinBars depth tokens with
  | case1 depth first second rest pair ih =>
      cases rest with
      | nil =>
          obtain rfl : second = last := Option.some_inj.mp isLast
          exact absurd pair.2.2 notBar
      | cons third rest => exact getLast?_cons_of_mem (ih isLast)
  | case2 depth first second rest notPair ih => exact getLast?_cons_of_mem (ih isLast)
  | case3 => exact isLast

/-- A token that is not the first one of two bars inside of a group stays. -/
theorem joinBars_same {depth : Nat} {token : Token} {rest : List Token}
    (single : 0 < depth → token.kind = .pipe → ∀ next ∈ rest.head?, next.kind ≠ .pipe) :
    joinBars depth (token :: rest) = token :: joinBars (token.depthBehind depth) rest := by
  cases rest with
  | nil => rfl
  | cons next rest =>
      rw [joinBars, if_neg]
      rintro ⟨inside, isBar, nextBar⟩
      exact single inside isBar next rfl nextBar

theorem lagOf_cons {token : Token} {rest : List Token}
    (lagging : ∀ last ∈ (token :: rest).getLast?, lag = lagOf last) :
    (rest = [] → lag = lagOf token) ∧ ∀ last ∈ rest.getLast?, lag = lagOf last := by
  cases rest with
  | nil => exact ⟨fun _ => lagging token rfl, fun last none => by simp at none⟩
  | cons next rest => exact ⟨fun empty => (List.cons_ne_nil _ _ empty).elim, lagging⟩

theorem Follows.ne_nil {position : Int} {tokens : List Token}
    (follows : Follows finish position tokens) : tokens ≠ [] := by
  cases follows <;> simp

theorem Joined.ne_nil {depth : Nat} {position : Int} {tokens joined : List Token}
    (beside : Joined finish lag depth position tokens joined) : tokens ≠ [] := by
  cases beside <;> simp

theorem Joined.finish_of_nil {depth : Nat} {position : Int} {tokens : List Token}
    (beside : Joined finish lag depth position tokens []) : position = finish := by
  cases beside
  rfl

/-- Joining the bars of a text gives such a stream. -/
theorem joined_joinBars (keepEnd : Bool) {depth : Nat} {position : Int} {tokens : List Token}
    (follows : Follows finish position tokens)
    (lagging : ∀ last ∈ (joinBars depth (trimmed keepEnd tokens)).getLast?, lag = lagOf last) :
    Joined finish lag depth position tokens (joinBars depth (trimmed keepEnd tokens)) := by
  induction size : tokens.length using Nat.strongRecOn generalizing depth position tokens with
  | _ size ih =>
    subst size
    cases follows with
    | ended =>
        cases keepEnd with
        | true => exact .kept (lagging _ rfl)
        | false => exact .omitted
    | @token first rest notEnd notJoined plain behind =>
        have before := behind.position_lt
        rw [trimmed_cons keepEnd first behind.ne_nil] at lagging ⊢
        by_cases pair : 0 < depth ∧ first.kind = .pipe ∧ ∃ next ∈ rest.head?, next.kind = .pipe
        · obtain ⟨inside, firstBar, second, isSecond, secondBar⟩ := pair
          generalize start : first.finish = offset at behind
          cases behind with
          | ended =>
              cases isSecond
              cases secondBar
          | @token other rest _ _ otherPlain behind =>
              obtain rfl : other = second := Option.some_inj.mp isSecond
              rw [finish_of_value_none (plain firstBar)] at start
              have wide : other.finish = first.position + 2 := by
                rw [finish_of_value_none (otherPlain secondBar)]
                omega
              rw [trimmed_cons keepEnd other behind.ne_nil,
                joinBars_bars inside firstBar secondBar] at lagging ⊢
              obtain ⟨atEnd, lagging⟩ := lagOf_cons lagging
              exact .bars inside firstBar secondBar before wide atEnd
                (ih rest.length (by simp only [List.length_cons]; omega) behind lagging rfl)
        · have single : 0 < depth → first.kind = .pipe → ∀ next ∈ rest.head?, next.kind ≠ .pipe :=
            fun inside isBar next isNext nextBar => pair ⟨inside, isBar, next, isNext, nextBar⟩
          rw [joinBars_same fun inside isBar next isNext =>
            single inside isBar next (head?_trimmed isNext)] at lagging ⊢
          obtain ⟨atEnd, lagging⟩ := lagOf_cons lagging
          refine .same notEnd notJoined before single (fun empty => ?_)
            (ih rest.length (by simp) behind lagging rfl)
          rw [atEnd empty, lagOf, if_neg notJoined]

/-- A stream that keeps its end of input does not lag behind its text. -/
theorem lag_handBuilt_true {text : String} (unbroken : (tokenize text).fault = none) :
    (handBuilt true text).lag = 0 := by
  have last : (⟨.endOfInput, text.length, none⟩ : Token) ∈
      (joinBars 0 (tokenize text).tokens).getLast? :=
    getLast?_joinBars (tokenize_follows unbroken).getLast? (by simp)
  rw [TokenStream.lag, handBuilt, trimmed, if_pos rfl, Option.mem_def.mp last]
  rfl

/-! ## Two cursors side by side -/

variable (finish lag) in
/-- A cursor in the tokens of a text beside one in a stream with joined bars.  Behind
the last token the latter takes its own offset for the end of the input. -/
structure Twin (depth : Nat) (text joined : Cursor) : Prop where
  textUnbroken : text.fault = none
  joinedUnbroken : joined.fault = none
  tokens : Joined finish lag depth text.offset text.tokens joined.tokens
  atEnd : joined.tokens = [] → joined.offset = finish - lag

variable (finish lag) in
/-- What two cursors side by side see: the end of the input, two bars and the token
that joins them, or the same token. -/
inductive Facing (depth : Nat) (text joined : Cursor) : Prop where
  | ended {token other : Token} :
      text.current = .ok token → joined.current = .ok other →
      token.kind = .endOfInput → other.kind = .endOfInput →
      token.position = finish → other.position = finish - lag → Facing depth text joined
  | bars {first second : Token} :
      0 < depth → text.current = .ok first → first.kind = .pipe →
      text.advance.current = .ok second → second.kind = .pipe →
      joined.current = .ok ⟨.doublePipe, first.position, none⟩ → first.position ≠ finish →
      text.advance.advance.tokens.length < text.tokens.length →
      joined.advance.tokens.length < joined.tokens.length →
      Twin finish lag depth text.advance.advance joined.advance → Facing depth text joined
  | same {token : Token} :
      text.current = .ok token → joined.current = .ok token →
      token.kind ≠ .endOfInput → token.kind ≠ .doublePipe → token.position ≠ finish →
      (0 < depth → token.kind = .pipe → ∀ next, text.advance.current = .ok next →
        next.kind ≠ .pipe) →
      text.advance.tokens.length < text.tokens.length →
      joined.advance.tokens.length < joined.tokens.length →
      joined.advance.offset = text.advance.offset →
      Twin finish lag (token.depthBehind depth) text.advance joined.advance →
      Facing depth text joined

theorem Cursor.advance_cons {token : Token} (notEnd : token.kind ≠ .endOfInput)
    (rest : List Token) (fault : Option Fault) (offset : Int) :
    Cursor.advance ⟨token :: rest, fault, offset⟩ = ⟨rest, fault, token.finish⟩ := by
  simp only [Cursor.advance, if_neg notEnd]

namespace Twin

variable {depth : Nat} {text joined : Cursor}

theorem facing (twin : Twin finish lag depth text joined) :
    Facing finish lag depth text joined := by
  obtain ⟨textTokens, textFault, textOffset⟩ := text
  obtain ⟨joinedTokens, joinedFault, joinedOffset⟩ := joined
  obtain ⟨rfl, rfl, tokens, atEnd⟩ := twin
  dsimp only at tokens atEnd
  cases tokens with
  | kept noLag =>
      subst noLag
      exact .ended rfl rfl rfl rfl rfl (Int.sub_zero _).symm
  | omitted => exact .ended rfl rfl rfl rfl rfl (atEnd rfl)
  | @bars _ first second rest joined inside firstBar secondBar before wide lagging tokens =>
      have firstStays : first.kind ≠ .endOfInput := by simp [firstBar]
      have secondStays : second.kind ≠ .endOfInput := by simp [secondBar]
      have secondNext : Cursor.advance ⟨first :: second :: rest, none, first.position⟩ =
          ⟨second :: rest, none, first.finish⟩ := Cursor.advance_cons firstStays ..
      have behind : Cursor.advance ⟨second :: rest, none, first.finish⟩ =
          ⟨rest, none, second.finish⟩ := Cursor.advance_cons secondStays ..
      have joinedBehind : Cursor.advance ⟨⟨.doublePipe, first.position, none⟩ :: joined, none,
          joinedOffset⟩ = ⟨joined, none, first.position + 1⟩ := Cursor.advance_cons (by simp) ..
      refine .bars inside rfl firstBar ?_ secondBar rfl (by omega) ?_ ?_ ?_
      · rw [secondNext]
        rfl
      · rw [secondNext, behind]
        simp only [List.length_cons]
        omega
      · simp [joinedBehind]
      · rw [secondNext, behind, joinedBehind]
        refine ⟨rfl, rfl, tokens, fun (empty : joined = []) => ?_⟩
        subst empty
        have last := tokens.finish_of_nil
        have oneBehind := lagging rfl
        dsimp only
        omega
  | @same _ token rest joined notEnd notJoined before single lagging tokens =>
      have behind : Cursor.advance ⟨token :: rest, none, token.position⟩ =
          ⟨rest, none, token.finish⟩ := Cursor.advance_cons notEnd ..
      have joinedBehind : Cursor.advance ⟨token :: joined, none, joinedOffset⟩ =
          ⟨joined, none, token.finish⟩ := Cursor.advance_cons notEnd ..
      refine .same rfl rfl notEnd notJoined (by omega) ?_ ?_ ?_ ?_ ?_
      · intro inside isBar next found
        rw [behind] at found
        obtain ⟨first, others, rfl⟩ := List.exists_cons_of_ne_nil tokens.ne_nil
        cases found
        exact single inside isBar next rfl
      · simp [behind]
      · simp [joinedBehind]
      · rw [behind, joinedBehind]
      · rw [behind, joinedBehind]
        refine ⟨rfl, rfl, tokens, fun (empty : joined = []) => ?_⟩
        subst empty
        have last := tokens.finish_of_nil
        have noLag := lagging rfl
        dsimp only
        omega

/-- A common offset at the end of the text is one at which the other stream stops
as well. -/
theorem offset_eq (twin : Twin finish lag depth text joined)
    (same : joined.offset = text.offset) :
    joined.offset = if text.offset = finish then finish - lag else text.offset := by
  obtain ⟨textTokens, textFault, textOffset⟩ := text
  obtain ⟨joinedTokens, joinedFault, joinedOffset⟩ := joined
  obtain ⟨-, -, tokens, atEnd⟩ := twin
  dsimp only at tokens atEnd same ⊢
  cases tokens with
  | kept noLag => simp [same, noLag]
  | omitted => simp [atEnd rfl]
  | bars _ _ _ before => rw [if_neg (by omega), same]
  | same _ _ before => rw [if_neg (by omega), same]

end Twin

end Reading

end Schematic
