import Mathlib.Data.List.Forall2
import Mathlib.Tactic.SplitIfs
import Schematic.CommandLine.Arguments
import Schematic.Proofs.Outcome

/-!
# The option that shows the journal

An option can stand in front of all arguments, and behind any of them that does
not wait for a value, as long as two dashes have not ended the options and do
not lose the document that they belong to.  This file proves that the option
which shows the journal does nothing else there.
-/

namespace Schematic

namespace CommandLine

/-- The same request, with the journal shown. -/
def Request.debugged (request : Request) : Request :=
  { request with debug := true }

def Gathering.debugged (gathering : Gathering) : Gathering :=
  { gathering with request := gathering.request.debugged }

def Parsed.debugged : Parsed → Parsed
  | .help => .help
  | .request asked unused => .request asked.debugged unused

/-- The argument that shows the journal. -/
def debugArgument : Argument :=
  ⟨"--debug", .option .debug none⟩

theorem Request.debugged_set (request : Request) (option : CommandOption) (value : String) :
    (request.set option value).debugged = request.debugged.set option value := by
  cases option <;> rfl

theorem Gathering.debugged_place (gathering : Gathering) (text : String) :
    (gathering.place text).debugged = gathering.debugged.place text := by
  unfold place
  cases placed : gathering.placed <;> simp [debugged, placed, Request.debugged]

/-! ## Steps of gathering -/

section

variable {gathering : Gathering} {text value : String} {option : CommandOption}
  {rest back : List Argument}

theorem gather_option (notHelp : option ≠ .help) :
    gather gathering (⟨text, .option option (some value)⟩ :: rest) =
      if option.hasValue then
        gather { gathering with request := gathering.request.set option value } rest
      else .error (.unusedValue option value) := by
  rw [gather]
  exact notHelp

/-- An option with a value takes it from the next argument, if this is a plain one. -/
theorem gather_valued (hasValue : option.hasValue = true) :
    gather gathering (⟨text, .option option none⟩ :: ⟨value, .plain⟩ :: rest) =
      gather { gathering with request := gathering.request.set option value } rest := by
  have notHelp : option ≠ .help := by
    rintro rfl
    cases hasValue
  rw [gather, if_pos hasValue]
  exact notHelp

theorem gather_missing (hasValue : option.hasValue = true) {next : Argument}
    (notPlain : next.form ≠ .plain) :
    gather gathering (⟨text, .option option none⟩ :: next :: rest) =
      .error (.missingValue option) := by
  have notHelp : option ≠ .help := by
    rintro rfl
    cases hasValue
  rw [gather, if_pos hasValue]
  · exact notHelp
  · rintro _ _ ⟨⟩
    exact notPlain rfl

theorem gather_flag (notHelp : option ≠ .help) (noValue : option.hasValue = false) :
    gather gathering (⟨text, .option option none⟩ :: rest) =
      gather { gathering with request := gathering.request.set option "" } rest := by
  have notValued : ¬option.hasValue = true := Bool.eq_false_iff.mp noValue
  by_cases plain : ∃ value later, rest = ⟨value, .plain⟩ :: later
  · obtain ⟨value, later, rfl⟩ := plain
    rw [gather.eq_def]
    split <;> simp_all
  · rw [gather.eq_6 _ _ _ _ notHelp, if_neg notValued]
    exact fun value later same => plain ⟨value, later, same⟩

theorem helpLetters_debugged (following : Bool) (letters : List Char) :
    (helpLetters following letters).map Parsed.debugged = helpLetters following letters := by
  fun_induction helpLetters following letters with
  | case1 | case3 | case4 | case5 => rfl
  | case2 letter rest _ ih => exact ih

/-- Without an argument behind them, letters for help make an error of what was help. -/
theorem helpLetters_false (letters : List Char) :
    helpLetters false letters = helpLetters true letters ∨
      helpLetters true letters = .ok .help := by
  induction letters with
  | nil => exact .inr rfl
  | cons letter rest ih =>
      rw [helpLetters, helpLetters]
      cases CommandOption.ofLetter? letter with
      | none => exact .inl rfl
      | some option => cases option <;> first | exact ih | simp

/-- The journal is shown if it was asked for before all other arguments. -/
theorem gather_debugged (gathering : Gathering) (arguments : List Argument) :
    gather gathering.debugged arguments = (gather gathering arguments).map Parsed.debugged := by
  fun_induction gather gathering arguments with
  | case1 => rw [gather]; rfl
  | case2 => rw [gather]; rfl
  | case3 gathering text value rest long => rw [gather, if_pos long]; rfl
  | case4 gathering text value rest short =>
      rw [gather, if_neg short, helpLetters_debugged]
  | case5 gathering text option value rest notHelp valued ih =>
      rw [gather_option notHelp, if_pos valued, ← ih, Gathering.debugged, ← Request.debugged_set]
      rfl
  | case6 gathering text option value rest notHelp flag =>
      rw [gather_option notHelp, if_neg flag]
      rfl
  | case7 gathering text option notHelp valued value rest ih =>
      rw [gather_valued valued, ← ih, Gathering.debugged, ← Request.debugged_set]
      rfl
  | case8 gathering text option rest notHelp valued notPlain =>
      rw [gather.eq_6 _ _ _ _ notHelp notPlain, if_pos valued]
      rfl
  | case9 gathering text option rest notHelp flag ih =>
      rw [gather_flag notHelp (Bool.eq_false_iff.mpr flag), ← ih, Gathering.debugged,
        ← Request.debugged_set]
      rfl
  | case10 gathering text rest ih =>
      rw [gather, ← ih]
      rfl
  | case11 gathering text rest ih =>
      rw [gather, ← Gathering.debugged_place]
      exact ih
  | case12 gathering text rest ih =>
      rw [gather]
      refine Eq.trans ?_ ih
      congr 1
      rw [show gathering.debugged.placed = gathering.placed from rfl]
      split <;> rfl

theorem gather_debugArgument :
    gather gathering (debugArgument :: rest) =
      (gather gathering rest).map Parsed.debugged := by
  have notHelp : CommandOption.debug ≠ .help := nofun
  rw [debugArgument, gather_flag notHelp rfl, ← gather_debugged]
  rfl

/-- An argument waits for a value if it is an option that has one. -/
def Argument.Waits (argument : Argument) : Prop :=
  ∃ option : CommandOption, argument.form = .option option none ∧ option.hasValue = true

theorem helpLetters_insert (letters : List Char) (front : List Argument) :
    helpLetters (plainNext (front ++ debugArgument :: back)) letters =
        helpLetters (plainNext (front ++ back)) letters ∨
      helpLetters (plainNext (front ++ back)) letters = .ok .help := by
  cases front with
  | cons first rest => exact .inl rfl
  | nil =>
      simp only [List.nil_append]
      cases behind : plainNext back with
      | false => exact .inl rfl
      | true => exact helpLetters_false letters

theorem withoutSeparator_of_ne {arguments : List Argument}
    (plain : ∀ first ∈ arguments.head?, first.form ≠ .separator) :
    withoutSeparator arguments = arguments := by
  unfold withoutSeparator
  split
  · exact absurd rfl (plain _ rfl)
  · rfl

theorem withoutSeparator_append {front : List Argument}
    (isOpen : ∀ argument ∈ front, argument.form ≠ .separator)
    (plain : ∀ first ∈ back.head?, first.form ≠ .separator) :
    withoutSeparator (front ++ back) = front ++ back := by
  apply withoutSeparator_of_ne
  intro first isFirst
  cases front with
  | nil => exact plain first isFirst
  | cons head tail =>
      obtain rfl : head = first := Option.some_inj.mp isFirst
      exact isOpen head List.mem_cons_self

/-- The option behind some arguments shows the journal and changes nothing else, unless
the arguments ask for help. -/
def Inserts (gathering : Gathering) (front back : List Argument) : Prop :=
  gather gathering (front ++ back) ≠ .ok .help →
    gather gathering (front ++ debugArgument :: back) =
      (gather gathering (front ++ back)).map Parsed.debugged

theorem inserts_help (letters : String) :
    Inserts gathering (⟨text, .option .help (some letters)⟩ :: rest) back := by
  intro noHelp
  rw [List.cons_append, gather] at noHelp
  rw [List.cons_append, List.cons_append, gather, gather]
  split
  · rfl
  · next short =>
    rw [if_neg short] at noHelp
    rw [helpLetters_debugged]
    exact (helpLetters_insert letters.toList rest).resolve_right noHelp

theorem inserts_plain (restOpen : ∀ argument ∈ rest, argument.form ≠ .separator)
    (plain : ∀ first ∈ back.head?, first.form ≠ .separator)
    (later : ∀ other, Inserts other rest back) :
    Inserts gathering (⟨text, .plain⟩ :: rest) back := by
  intro noHelp
  have kept := withoutSeparator_append restOpen plain
  have keptAfter : withoutSeparator (rest ++ debugArgument :: back) =
      rest ++ debugArgument :: back := by
    apply withoutSeparator_append restOpen
    rintro _ ⟨⟩
    decide
  rw [List.cons_append, gather, kept, ite_self] at noHelp
  rw [List.cons_append, List.cons_append, gather, gather, kept, keptAfter, ite_self, ite_self]
  exact later _ noHelp

/-- What an option waits for stays next to it. -/
theorem inserts_valued (hasValue : option.hasValue = true) (inhabited : rest ≠ [])
    (later : ∀ other remaining, remaining <:+ rest → Inserts other remaining back) :
    Inserts gathering (⟨text, .option option none⟩ :: rest) back := by
  intro noHelp
  cases rest with
  | nil => exact absurd rfl inhabited
  | cons second more =>
      obtain ⟨secondText, secondForm⟩ := second
      by_cases isPlain : secondForm = .plain
      · subst isPlain
        simp only [List.cons_append, gather_valued hasValue] at noHelp ⊢
        exact later _ more (List.suffix_cons _ _) noHelp
      · simp only [List.cons_append]
        rw [gather_missing hasValue isPlain, gather_missing hasValue isPlain]
        rfl

theorem inserts_option (notHelp : option ≠ .help) (given : Option String)
    (settled : given = none → option.hasValue = true → rest ≠ [])
    (later : ∀ other remaining, remaining <:+ rest → Inserts other remaining back) :
    Inserts gathering (⟨text, .option option given⟩ :: rest) back := by
  cases given with
  | some value =>
      intro noHelp
      rw [List.cons_append, gather_option notHelp] at noHelp
      rw [List.cons_append, List.cons_append, gather_option notHelp, gather_option notHelp]
      split
      · next hasValue =>
        rw [if_pos hasValue] at noHelp
        exact later _ rest List.suffix_rfl noHelp
      · rfl
  | none =>
      by_cases hasValue : option.hasValue = true
      · exact inserts_valued hasValue (settled rfl hasValue) later
      · intro noHelp
        have flag := Bool.eq_false_iff.mpr hasValue
        rw [List.cons_append, gather_flag notHelp flag] at noHelp
        rw [List.cons_append, List.cons_append, gather_flag notHelp flag,
          gather_flag notHelp flag]
        exact later _ rest List.suffix_rfl noHelp

/-- Between other arguments the option shows the journal and changes nothing else. -/
theorem gather_insert {front : List Argument}
    (isOpen : ∀ argument ∈ front, argument.form ≠ .separator)
    (settled : ∀ last ∈ front.getLast?, ¬last.Waits)
    (next : front = [] ∨ ∀ first ∈ back.head?, first.form ≠ .separator) :
    Inserts gathering front back := by
  -- Options with a value take two arguments at once, so the induction is on the length.
  induction count : front.length using Nat.strongRecOn generalizing gathering front with
  | ind count ih =>
  cases front with
  | nil => exact fun _ => gather_debugArgument
  | cons first rest =>
      have plain := next.resolve_left (List.cons_ne_nil first rest)
      have later : ∀ other remaining, remaining <:+ rest → Inserts other remaining back := by
        intro other remaining isSuffix
        refine ih remaining.length ?_ ?_ ?_ (.inr plain) rfl
        · rw [← count, List.length_cons]
          exact Nat.lt_succ_of_le isSuffix.length_le
        · exact fun argument isArgument =>
            isOpen argument (List.mem_cons_of_mem first (isSuffix.subset isArgument))
        · intro last isLast
          obtain ⟨skipped, rfl⟩ := isSuffix
          apply settled last
          rw [← List.cons_append, List.getLast?_append]
          simp [Option.mem_def.mp isLast]
      obtain ⟨text, form⟩ := first
      cases form with
      | separator => exact absurd rfl (isOpen _ List.mem_cons_self)
      | unknown =>
          intro noHelp
          rw [List.cons_append, gather] at noHelp
          rw [List.cons_append, List.cons_append, gather, gather]
          exact later _ rest List.suffix_rfl noHelp
      | plain =>
          have restOpen := fun argument isArgument =>
            isOpen argument (List.mem_cons_of_mem _ isArgument)
          exact inserts_plain restOpen plain fun other => later other rest List.suffix_rfl
      | option option given =>
          by_cases isHelp : option = .help
          · subst isHelp
            cases given with
            | none => exact fun noHelp => absurd (by rw [List.cons_append, gather]) noHelp
            | some letters => exact inserts_help letters
          · refine inserts_option isHelp given ?_ later
            rintro rfl hasValue rfl
            exact settled _ rfl ⟨option, rfl, hasValue⟩

end

/-! ## Arguments as they are given -/

/-- An option can be put between the arguments in front and those behind. -/
structure TakesOption (front back : List String) : Prop where
  /-- The options have not been ended. -/
  isOpen : "--" ∉ front
  /-- The last argument in front does not wait for a value. -/
  settled : ∀ last ∈ front.getLast?, ∀ option : CommandOption,
    formOf last = .ok (.option option none) → option.hasValue = false
  /-- Two dashes stay next to the arguments in front of them. -/
  next : front = [] ∨ back.head? ≠ some "--"

example (arguments : List String) : TakesOption [] arguments :=
  ⟨List.not_mem_nil, nofun, .inl rfl⟩

theorem dashedForm_ne_separator (text : List Char) : dashedForm text ≠ .ok .separator := by
  unfold dashedForm
  dsimp only
  split
  · split
    · split_ifs <;> nofun
    · nofun
    · nofun
  · split
    · nofun
    · split_ifs <;> nofun
  · split_ifs <;> nofun

theorem formOf_ne_separator (text : String) : formOf text ≠ .ok .separator := by
  unfold formOf
  split
  · nofun
  · split
    · nofun
    · split
      · split
        · nofun
        · exact dashedForm_ne_separator _
      · exact dashedForm_ne_separator _
  · nofun

theorem formsOf_append {front : List String} (isOpen : "--" ∉ front) (back : List String) :
    formsOf (front ++ back) = (do
      let forms ← formsOf front
      let others ← formsOf back
      return forms ++ others) := by
  induction front with
  | nil =>
      rw [List.nil_append, formsOf, ok_bind]
      cases formsOf back <;> rfl
  | cons text rest ih =>
      obtain ⟨notSeparator, restOpen⟩ := List.ne_and_not_mem_of_not_mem_cons isOpen
      rw [List.cons_append, formsOf, formsOf, if_neg (Ne.symm notSeparator),
        if_neg (Ne.symm notSeparator), ih restOpen]
      cases formOf text with
      | error fault => rfl
      | ok form =>
          cases formsOf rest with
          | error fault => rfl
          | ok forms => cases formsOf back <;> rfl

/-- Arguments with the forms that they have by themselves. -/
def AreForms (texts : List String) (arguments : List Argument) : Prop :=
  List.Forall₂ (fun text argument => formOf text = .ok argument.form) texts arguments

theorem areForms_of_formsOf {texts : List String} (isOpen : "--" ∉ texts)
    {arguments : List Argument} (formed : formsOf texts = .ok arguments) :
    AreForms texts arguments := by
  induction texts generalizing arguments with
  | nil =>
      cases formed
      exact .nil
  | cons text rest ih =>
      obtain ⟨notSeparator, restOpen⟩ := List.ne_and_not_mem_of_not_mem_cons isOpen
      rw [formsOf, if_neg (Ne.symm notSeparator)] at formed
      obtain ⟨form, hasForm, formed⟩ := exists_of_bind_eq_ok formed
      obtain ⟨others, formedRest, formed⟩ := exists_of_bind_eq_ok formed
      cases formed
      exact .cons hasForm (ih restOpen formedRest)

theorem AreForms.isOpen {texts : List String} {arguments : List Argument}
    (forms : AreForms texts arguments) : ∀ argument ∈ arguments, argument.form ≠ .separator := by
  induction forms with
  | nil => simp
  | @cons text first _ _ hasForm _ ih =>
      rw [List.forall_mem_cons]
      exact ⟨fun isSeparator => formOf_ne_separator text (isSeparator ▸ hasForm), ih⟩

theorem AreForms.getLast? {texts : List String} {arguments : List Argument}
    (forms : AreForms texts arguments) {last : Argument} (isLast : last ∈ arguments.getLast?) :
    ∃ text ∈ texts.getLast?, formOf text = .ok last.form := by
  have reversed := List.rel_reverse forms
  simp only [Option.mem_def, ← List.head?_reverse] at isLast ⊢
  generalize texts.reverse = texts at reversed ⊢
  generalize arguments.reverse = arguments at reversed isLast
  cases reversed with
  | nil => cases isLast
  | cons hasForm _ =>
      cases isLast
      exact ⟨_, rfl, hasForm⟩

theorem form_ne_separator {back : List String} {arguments : List Argument}
    (formed : formsOf back = .ok arguments) (next : back.head? ≠ some "--") :
    ∀ first ∈ arguments.head?, first.form ≠ .separator := by
  intro first isFirst
  cases back with
  | nil =>
      cases formed
      cases isFirst
  | cons text rest =>
      have notSeparator : text ≠ "--" := fun same => next (congrArg some same)
      rw [formsOf, if_neg notSeparator] at formed
      obtain ⟨form, hasForm, formed⟩ := exists_of_bind_eq_ok formed
      obtain ⟨others, -, formed⟩ := exists_of_bind_eq_ok formed
      cases formed
      cases isFirst
      rintro rfl
      exact formOf_ne_separator text hasForm

/-- Where an option can stand, the one that shows the journal does nothing else. -/
theorem parse_insert {front back : List String} (takes : TakesOption front back)
    (noHelp : parse (front ++ back) ≠ .ok .help) :
    parse (front ++ "--debug" :: back) = (parse (front ++ back)).map Parsed.debugged := by
  have isDebug : formsOf ("--debug" :: back) = (do
      let others ← formsOf back
      return debugArgument :: others) := rfl
  unfold parse at noHelp ⊢
  rw [formsOf_append takes.isOpen, isDebug]
  rw [formsOf_append takes.isOpen] at noHelp ⊢
  cases formed : formsOf front with
  | error fault => rfl
  | ok forms =>
      cases formedBack : formsOf back with
      | error fault => rfl
      | ok others =>
          rw [formed, formedBack] at noHelp
          change (gather {} (forms ++ debugArgument :: others) >>= _) =
            (gather {} (forms ++ others) >>= _).map _
          change (gather {} (forms ++ others) >>= _) ≠ _ at noHelp
          have areForms := areForms_of_formsOf takes.isOpen formed
          have settled : ∀ last ∈ forms.getLast?, ¬last.Waits := by
            rintro last isLast ⟨option, isOption, hasValue⟩
            obtain ⟨text, isText, hasForm⟩ := areForms.getLast? isLast
            rw [isOption] at hasForm
            rw [takes.settled text isText option hasForm] at hasValue
            cases hasValue
          have next : forms = [] ∨ ∀ first ∈ others.head?, first.form ≠ .separator := by
            apply takes.next.imp
            · rintro rfl
              cases formed
              rfl
            · exact form_ne_separator formedBack
          have gathersNoHelp : gather {} (forms ++ others) ≠ .ok .help := by
            intro isHelp
            rw [isHelp] at noHelp
            exact noHelp rfl
          rw [gather_insert areForms.isOpen settled next gathersNoHelp]
          cases gather {} (forms ++ others) with
          | error fault => rfl
          | ok parsed =>
              cases parsed with
              | help => rfl
              | request request unused => cases unused <;> rfl

end CommandLine

end Schematic
