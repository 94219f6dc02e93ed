import Mathlib.Data.List.Infix
import Schematic.Proofs.Outcome
import Schematic.Yaml.Structure

/-!
# Blocks and brackets

The tokens of a document open and close blocks and brackets.  Brackets stand in the
text, but blocks follow from the indentation alone, and the token that opens one can be
inserted in front of others that are there already.  This file proves that nothing is
closed that is not open, in no beginning of the tokens, and that all blocks are closed at
the end of a document unless a bracket is open.
-/

namespace Schematic

namespace Yaml

namespace Token

/-- The number of blocks that a token opens. -/
def blocks : Token → Int
  | .blockSequenceStart => 1
  | .blockMappingStart => 1
  | .blockEnd => -1
  | _ => 0

/-- The number of brackets that a token opens. -/
def brackets : Token → Int
  | .flowSequenceStart => 1
  | .flowMappingStart => 1
  | .flowSequenceEnd => -1
  | .flowMappingEnd => -1
  | _ => 0

theorem blocks_blockEnd : blocks .blockEnd = -1 :=
  rfl

theorem brackets_blockEnd : brackets .blockEnd = 0 :=
  rfl

/-- A token that neither opens nor closes anything. -/
def IsNeutral (token : Token) : Prop :=
  token.blocks = 0 ∧ token.brackets = 0

end Token

/-! ## Sums over tokens -/

section

variable (opens : Token → Int)

/-- How many more are opened than closed. -/
def excess : List Token → Int
  | [] => 0
  | token :: rest => opens token + excess rest

/-- In tokens of which the last one stands first, nothing is closed that is not open. -/
def ClosesOpen (tokens : List Token) : Prop :=
  ∀ behind, behind <:+ tokens → 0 ≤ excess opens behind

theorem excess_nil : excess opens [] = 0 :=
  rfl

theorem excess_cons (token : Token) (tokens : List Token) :
    excess opens (token :: tokens) = opens token + excess opens tokens :=
  rfl

theorem excess_append (first second : List Token) :
    excess opens (first ++ second) = excess opens first + excess opens second := by
  induction first with
  | nil => exact (Int.zero_add _).symm
  | cons token rest ih => rw [List.cons_append, excess_cons, excess_cons, ih, Int.add_assoc]

theorem excess_reverse (tokens : List Token) :
    excess opens tokens.reverse = excess opens tokens := by
  induction tokens with
  | nil => rfl
  | cons token rest ih =>
      rw [List.reverse_cons, excess_append, ih, excess_cons, excess_cons, excess_nil]
      omega

theorem closesOpen_nil : ClosesOpen opens [] := by
  intro behind isBehind
  rw [List.suffix_nil.mp isBehind]
  exact Int.le_refl 0

variable {opens} {token : Token} {tokens : List Token}

theorem ClosesOpen.excess_nonneg (closes : ClosesOpen opens tokens) : 0 ≤ excess opens tokens :=
  closes tokens List.suffix_rfl

theorem ClosesOpen.cons (closes : ClosesOpen opens tokens)
    (enough : 0 ≤ excess opens (token :: tokens)) : ClosesOpen opens (token :: tokens) := by
  intro behind isBehind
  rcases List.suffix_cons_iff.mp isBehind with rfl | isBehind
  · exact enough
  · exact closes behind isBehind

theorem ClosesOpen.of_cons (closes : ClosesOpen opens (token :: tokens)) :
    ClosesOpen opens tokens :=
  fun behind isBehind => closes behind (isBehind.trans (List.suffix_cons token tokens))

theorem excess_insertIdx {index : Nat} (within : index ≤ tokens.length) :
    excess opens (tokens.insertIdx index token) = opens token + excess opens tokens := by
  induction index generalizing tokens with
  | zero => rfl
  | succ index ih =>
      cases tokens with
      | nil => cases within
      | cons first rest =>
          rw [List.insertIdx_succ_cons, excess_cons, excess_cons,
            ih (Nat.le_of_succ_le_succ within)]
          omega

/-- A token that closes nothing can be inserted anywhere. -/
theorem ClosesOpen.insertIdx (closes : ClosesOpen opens tokens) (closesNone : 0 ≤ opens token)
    {index : Nat} (within : index ≤ tokens.length) :
    ClosesOpen opens (tokens.insertIdx index token) := by
  induction index generalizing tokens with
  | zero =>
      refine closes.cons ?_
      have nonneg := closes.excess_nonneg
      rw [excess_cons]
      omega
  | succ index ih =>
      cases tokens with
      | nil => exact closes
      | cons first rest =>
          have within := Nat.le_of_succ_le_succ within
          have nonneg := closes.excess_nonneg
          refine (ih closes.of_cons within).cons ?_
          rw [excess_cons] at nonneg
          rw [excess_cons, excess_insertIdx within]
          omega

end

/-! ## Tokens that have been read -/

/-- The tokens up to a place, the last one first, have left some brackets open, and the
blocks of some indentations, each deeper than the next and the last one outside of all. -/
structure Laid (tokens : List Token) (depth : Nat) (indents : List Int) : Prop where
  deeper : indents.Pairwise (· > ·)
  outermost : indents.getLast? = some (-1)
  blocks : excess Token.blocks tokens + 1 = indents.length
  brackets : excess Token.brackets tokens = depth
  closesBlocks : ClosesOpen Token.blocks tokens
  closesBrackets : ClosesOpen Token.brackets tokens

namespace Laid

variable {tokens : List Token} {depth : Nat} {indents : List Int} {token : Token}

theorem nil : Laid [] 0 [-1] :=
  ⟨List.pairwise_singleton _ _, rfl, rfl, rfl, closesOpen_nil _, closesOpen_nil _⟩

theorem push (laid : Laid tokens depth indents) (neutral : token.IsNeutral) :
    Laid (token :: tokens) depth indents := by
  obtain ⟨noBlock, noBracket⟩ := neutral
  have blocks := laid.closesBlocks.excess_nonneg
  have brackets := laid.closesBrackets.excess_nonneg
  refine { laid with blocks := ?_, brackets := ?_, closesBlocks := ?_, closesBrackets := ?_ }
  · rw [excess_cons, noBlock, Int.zero_add, laid.blocks]
  · rw [excess_cons, noBracket, Int.zero_add, laid.brackets]
  · exact laid.closesBlocks.cons (by rw [excess_cons, noBlock]; omega)
  · exact laid.closesBrackets.cons (by rw [excess_cons, noBracket]; omega)

theorem insertIdx (laid : Laid tokens depth indents) (neutral : token.IsNeutral) {index : Nat}
    (within : index ≤ tokens.length) : Laid (tokens.insertIdx index token) depth indents := by
  obtain ⟨noBlock, noBracket⟩ := neutral
  refine { laid with blocks := ?_, brackets := ?_, closesBlocks := ?_, closesBrackets := ?_ }
  · rw [excess_insertIdx within, noBlock, Int.zero_add, laid.blocks]
  · rw [excess_insertIdx within, noBracket, Int.zero_add, laid.brackets]
  · exact laid.closesBlocks.insertIdx (Int.le_of_eq noBlock.symm) within
  · exact laid.closesBrackets.insertIdx (Int.le_of_eq noBracket.symm) within

/-- A block that is deeper than all others is opened by a token anywhere. -/
theorem openBlock {indent column : Int} {outer : List Int}
    (laid : Laid tokens depth (indent :: outer)) (isDeeper : indent < column)
    (opensBlock : token.blocks = 1) (noBracket : token.brackets = 0) {index : Nat}
    (within : index ≤ tokens.length) :
    Laid (tokens.insertIdx index token) depth (column :: indent :: outer) where
  deeper := by
    refine List.pairwise_cons.mpr ⟨fun around isAround => ?_, laid.deeper⟩
    rcases List.mem_cons.mp isAround with rfl | isOuter
    · exact isDeeper
    · exact Int.lt_trans ((List.pairwise_cons.mp laid.deeper).1 around isOuter) isDeeper
  outermost := by
    rw [List.getLast?_cons_cons]
    exact laid.outermost
  blocks := by
    have blocks := laid.blocks
    rw [excess_insertIdx within, opensBlock]
    simp only [List.length_cons] at blocks ⊢
    omega
  brackets := by rw [excess_insertIdx within, noBracket, Int.zero_add, laid.brackets]
  closesBlocks := laid.closesBlocks.insertIdx (by omega) within
  closesBrackets := laid.closesBrackets.insertIdx (Int.le_of_eq noBracket.symm) within

theorem closeBlock {indent around : Int} {outer : List Int}
    (laid : Laid tokens depth (indent :: around :: outer)) :
    Laid (.blockEnd :: tokens) depth (around :: outer) where
  deeper := laid.deeper.of_cons
  outermost := by
    rw [← laid.outermost, List.getLast?_cons_cons]
  blocks := by
    have blocks := laid.blocks
    rw [excess_cons, Token.blocks_blockEnd]
    simp only [List.length_cons] at blocks ⊢
    omega
  brackets := by rw [excess_cons, Token.brackets_blockEnd, Int.zero_add, laid.brackets]
  closesBlocks := by
    have blocks := laid.blocks
    refine laid.closesBlocks.cons ?_
    rw [excess_cons, Token.blocks_blockEnd]
    simp only [List.length_cons] at blocks
    omega
  closesBrackets := by
    have brackets := laid.closesBrackets.excess_nonneg
    exact laid.closesBrackets.cons (by rw [excess_cons, Token.brackets_blockEnd]; omega)

/-- A bracket is opened or closed. -/
theorem bracket {newDepth : Nat} (laid : Laid tokens depth indents) (noBlock : token.blocks = 0)
    (moves : token.brackets + depth = newDepth) : Laid (token :: tokens) newDepth indents where
  deeper := laid.deeper
  outermost := laid.outermost
  blocks := by rw [excess_cons, noBlock, Int.zero_add, laid.blocks]
  brackets := by rw [excess_cons, laid.brackets, moves]
  closesBlocks := by
    have blocks := laid.closesBlocks.excess_nonneg
    exact laid.closesBlocks.cons (by rw [excess_cons, noBlock]; omega)
  closesBrackets := by
    refine laid.closesBrackets.cons ?_
    rw [excess_cons, laid.brackets, moves]
    omega

end Laid

/-! ## Steps of reading -/

namespace Progress

variable {progress next : Progress}

/-- What is read so far has opened the brackets and blocks that are known to be open. -/
def IsLaid (progress : Progress) : Prop :=
  Laid progress.tokens progress.depth (progress.indent :: progress.outer)

theorem laid_closeBlocks (column : Int) {depth : Nat} {outer : List Int} {indent : Int}
    {tokens : List Token} (laid : Laid tokens depth (indent :: outer)) :
    let closed := closeBlocks column outer indent tokens
    Laid closed.2.2 depth (closed.2.1 :: closed.1) := by
  dsimp only
  induction outer generalizing indent tokens with
  | nil => exact laid
  | cons around outer ih =>
      rw [closeBlocks]
      split
      · exact ih laid.closeBlock
      · exact laid

theorem IsLaid.unwind (laid : progress.IsLaid) (column : Int) :
    (progress.unwind column).IsLaid := by
  unfold Progress.unwind
  split
  · exact laid
  · exact laid_closeBlocks column laid

theorem depth_unwind (column : Int) : (progress.unwind column).depth = progress.depth := by
  unfold Progress.unwind
  split <;> rfl

theorem IsLaid.openBlock (laid : progress.IsLaid) {token : Token}
    (opensBlock : token.blocks = 1) (noBracket : token.brackets = 0) (column count : Nat) :
    (progress.openBlock column count token).IsLaid := by
  unfold Progress.openBlock
  split
  · next isDeeper => exact Laid.openBlock laid isDeeper opensBlock noBracket (Nat.sub_le _ _)
  · exact laid

theorem IsLaid.dropCandidate (laid : progress.IsLaid)
    (dropped : progress.dropCandidate = .ok next) : next.IsLaid := by
  unfold Progress.dropCandidate at dropped
  split at dropped
  · split at dropped
    · cases dropped
    · cases dropped
      exact laid
  · cases dropped
    exact laid

theorem IsLaid.dropStale (laid : progress.IsLaid) (dropped : progress.dropStale = .ok next) :
    next.IsLaid := by
  unfold Progress.dropStale at dropped
  dsimp only at dropped
  split at dropped
  · cases dropped
  · cases dropped
    exact laid

theorem IsLaid.saveCandidate (laid : progress.IsLaid) (saved : progress.saveCandidate = .ok next) :
    next.IsLaid := by
  unfold Progress.saveCandidate at saved
  split at saved
  · obtain ⟨cleared, dropped, saved⟩ := exists_of_bind_eq_ok saved
    have clearedLaid := laid.dropCandidate dropped
    cases saved
    exact clearedLaid
  · cases saved
    exact laid

theorem IsLaid.take (laid : progress.IsLaid) {token : Token} (neutral : token.IsNeutral)
    (width : Nat) : (progress.take width token).IsLaid :=
  laid.push neutral

theorem IsLaid.outermost (laid : progress.IsLaid) (reached : progress.outermost = .ok next) :
    next.IsLaid := by
  obtain ⟨cleared, dropped, reached⟩ := exists_of_bind_eq_ok reached
  have clearedLaid := (laid.unwind (-1)).dropCandidate dropped
  cases reached
  exact clearedLaid

theorem IsLaid.documentMark (laid : progress.IsLaid) {token : Token} (neutral : token.IsNeutral)
    (read : progress.documentMark token = .ok next) : next.IsLaid := by
  obtain ⟨reached, moved, read⟩ := exists_of_bind_eq_ok read
  cases read
  exact (laid.outermost moved).take neutral 3

theorem IsLaid.directive (laid : progress.IsLaid) (read : progress.directive = .ok next) :
    next.IsLaid := by
  obtain ⟨reached, moved, read⟩ := exists_of_bind_eq_ok read
  obtain ⟨⟨directive, cursor⟩, -, read⟩ := exists_of_bind_eq_ok read
  cases read
  exact (laid.outermost moved).push ⟨rfl, rfl⟩

theorem IsLaid.openBracket (laid : progress.IsLaid) {token : Token} (noBlock : token.blocks = 0)
    (opensBracket : token.brackets = 1) (read : progress.openBracket token = .ok next) :
    next.IsLaid := by
  obtain ⟨saved, isSaved, read⟩ := exists_of_bind_eq_ok read
  have opened : Laid (token :: saved.tokens) (saved.depth + 1) (saved.indent :: saved.outer) :=
    Laid.bracket (laid.saveCandidate isSaved) noBlock (by rw [opensBracket]; omega)
  cases read
  exact opened

theorem IsLaid.closeBracket (laid : progress.IsLaid) {token : Token} (noBlock : token.blocks = 0)
    (closesBracket : token.brackets = -1) (read : progress.closeBracket token = .ok next) :
    next.IsLaid := by
  obtain ⟨dropped, isDropped, read⟩ := exists_of_bind_eq_ok read
  split at read
  · next isInside =>
    have isOpen : dropped.depth ≠ 0 := by simpa [Progress.inFlow] using isInside
    have closed : Laid (token :: dropped.tokens) (dropped.depth - 1)
        (dropped.indent :: dropped.outer) :=
      Laid.bracket (laid.dropCandidate isDropped) noBlock (by rw [closesBracket]; omega)
    cases read
    exact closed
  · cases read

theorem IsLaid.comma (laid : progress.IsLaid) (read : progress.comma = .ok next) :
    next.IsLaid := by
  obtain ⟨dropped, isDropped, read⟩ := exists_of_bind_eq_ok read
  cases read
  exact (laid.dropCandidate isDropped).take ⟨rfl, rfl⟩ 1

/-- A block is opened only outside of brackets. -/
theorem IsLaid.openOutside (laid : progress.IsLaid) {token : Token} (opensBlock : token.blocks = 1)
    (noBracket : token.brackets = 0) (column count : Nat) :
    (if progress.inFlow then progress else progress.openBlock column count token).IsLaid := by
  split
  · exact laid
  · exact laid.openBlock opensBlock noBracket column count

theorem IsLaid.dash (laid : progress.IsLaid) (read : progress.dash = .ok next) :
    next.IsLaid := by
  unfold Progress.dash at read
  split at read
  · cases read
  · obtain ⟨dropped, isDropped, read⟩ := exists_of_bind_eq_ok read
    cases read
    exact ((laid.openOutside rfl rfl _ _).dropCandidate isDropped).take ⟨rfl, rfl⟩ 1

theorem IsLaid.questionMark (laid : progress.IsLaid) (read : progress.questionMark = .ok next) :
    next.IsLaid := by
  unfold Progress.questionMark at read
  split at read
  · cases read
  · obtain ⟨dropped, isDropped, read⟩ := exists_of_bind_eq_ok read
    cases read
    exact ((laid.openOutside rfl rfl _ _).dropCandidate isDropped).take ⟨rfl, rfl⟩ 1

/-- A key is opened in front of what has turned out to be one. -/
theorem IsLaid.makeKey (laid : progress.IsLaid) (candidate : Candidate) :
    (progress.makeKey candidate).IsLaid := by
  have keyed : (progress.withoutCandidate.insertAt candidate.count .key).IsLaid :=
    Laid.insertIdx laid ⟨rfl, rfl⟩ (Nat.sub_le _ _)
  unfold Progress.makeKey
  dsimp only
  split
  · exact keyed
  · exact keyed.openBlock rfl rfl _ _

theorem IsLaid.colon (laid : progress.IsLaid) (read : progress.colon = .ok next) :
    next.IsLaid := by
  unfold Progress.colon at read
  split at read
  · cases read
    exact (laid.makeKey _).take ⟨rfl, rfl⟩ 1
  · split at read
    · cases read
    · obtain ⟨dropped, isDropped, read⟩ := exists_of_bind_eq_ok read
      cases read
      exact ((laid.openOutside rfl rfl _ _).dropCandidate isDropped).take ⟨rfl, rfl⟩ 1

theorem IsLaid.keyPart (laid : progress.IsLaid) {scan : Scan Token}
    (neutral : ∀ cursor token next, scan cursor = .ok (token, next) → token.IsNeutral)
    (read : progress.keyPart scan = .ok next) : next.IsLaid := by
  obtain ⟨saved, isSaved, read⟩ := exists_of_bind_eq_ok read
  obtain ⟨⟨token, cursor⟩, scanned, read⟩ := exists_of_bind_eq_ok read
  cases read
  exact (laid.saveCandidate isSaved).push (neutral _ _ _ scanned)

theorem IsLaid.block (laid : progress.IsLaid) {folded : Bool}
    (read : progress.block folded = .ok next) : next.IsLaid := by
  obtain ⟨dropped, isDropped, read⟩ := exists_of_bind_eq_ok read
  obtain ⟨⟨text, cursor⟩, -, read⟩ := exists_of_bind_eq_ok read
  cases read
  exact (laid.dropCandidate isDropped).push ⟨rfl, rfl⟩

theorem IsLaid.plain (laid : progress.IsLaid) (read : progress.plain = .ok next) :
    next.IsLaid := by
  obtain ⟨saved, isSaved, read⟩ := exists_of_bind_eq_ok read
  cases read
  exact (laid.saveCandidate isSaved).push ⟨rfl, rfl⟩

/-- A scan that makes a neutral token of what it reads. -/
theorem isNeutral_of_scan {α : Type} {scan : Scan α} {wrap : α → Token}
    (neutral : ∀ value, (wrap value).IsNeutral) (cursor : Cursor) (token : Token) (next : Cursor)
    (scanned : (do
      let (value, next) ← scan cursor
      return (wrap value, next) : Except Fault (Token × Cursor)) = .ok (token, next)) :
    token.IsNeutral := by
  obtain ⟨⟨value, behind⟩, -, scanned⟩ := exists_of_bind_eq_ok scanned
  cases scanned
  exact neutral value

theorem isLaid_of_ite {condition : Prop} [Decidable condition]
    {first second : Except Fault Progress}
    (read : (if condition then first else second) = .ok next)
    (inFirst : first = .ok next → next.IsLaid) (inSecond : second = .ok next → next.IsLaid) :
    next.IsLaid := by
  split at read
  · exact inFirst read
  · exact inSecond read

theorem IsLaid.token (laid : progress.IsLaid) {char : Char}
    (read : progress.token char = .ok next) : next.IsLaid := by
  have scanned {α : Type} {scan : Scan α} {wrap : α → Token}
      (neutral : ∀ value, (wrap value).IsNeutral) (read : progress.keyPart (fun cursor => do
        let (value, next) ← scan cursor
        return (wrap value, next)) = .ok next) : next.IsLaid :=
    laid.keyPart (isNeutral_of_scan neutral) read
  unfold Progress.token at read
  refine isLaid_of_ite read laid.directive fun read => ?_
  refine isLaid_of_ite read (laid.documentMark ⟨rfl, rfl⟩) fun read => ?_
  refine isLaid_of_ite read (laid.documentMark ⟨rfl, rfl⟩) fun read => ?_
  refine isLaid_of_ite read (laid.openBracket rfl rfl) fun read => ?_
  refine isLaid_of_ite read (laid.openBracket rfl rfl) fun read => ?_
  refine isLaid_of_ite read (laid.closeBracket rfl rfl) fun read => ?_
  refine isLaid_of_ite read (laid.closeBracket rfl rfl) fun read => ?_
  refine isLaid_of_ite read laid.comma fun read => ?_
  refine isLaid_of_ite read laid.dash fun read => ?_
  refine isLaid_of_ite read laid.questionMark fun read => ?_
  refine isLaid_of_ite read laid.colon fun read => ?_
  refine isLaid_of_ite read (scanned fun _ => ⟨rfl, rfl⟩) fun read => ?_
  refine isLaid_of_ite read (scanned fun _ => ⟨rfl, rfl⟩) fun read => ?_
  refine isLaid_of_ite read (scanned fun _ => ⟨rfl, rfl⟩) fun read => ?_
  refine isLaid_of_ite read laid.block fun read => ?_
  refine isLaid_of_ite read laid.block fun read => ?_
  refine isLaid_of_ite read
    (@scanned _ (scanQuoted char) (fun text => .scalar text false) fun _ => ⟨rfl, rfl⟩)
    fun read => ?_
  exact isLaid_of_ite read laid.plain nofun

theorem isLaid_skipBlanks (steps : Nat) (laid : progress.IsLaid) :
    (progress.skipBlanks steps).IsLaid := by
  induction steps generalizing progress with
  | zero => exact laid
  | succ steps ih =>
      unfold skipBlanks
      dsimp only
      split
      · exact laid
      · exact ih laid

theorem IsLaid.approach (laid : progress.IsLaid) (reached : progress.approach = .ok next) :
    next.IsLaid := by
  have start : (if progress.cursor.index == 0 && progress.cursor.peek == some '\ufeff' then
      { progress with cursor := progress.cursor.advance } else progress).IsLaid := by
    split <;> exact laid
  obtain ⟨cleared, dropped, reached⟩ := exists_of_bind_eq_ok reached
  cases reached
  exact ((isLaid_skipBlanks _ start).dropStale dropped).unwind _

/-- Outside of all blocks they are closed one after the other. -/
theorem excess_closeBlocks {depth : Nat} {outer : List Int} {indent : Int} {tokens : List Token}
    (laid : Laid tokens depth (indent :: outer)) :
    excess Token.blocks (closeBlocks (-1) outer indent tokens).2.2 = 0 := by
  induction outer generalizing indent tokens with
  | nil =>
      have blocks := laid.blocks
      rw [List.length_singleton] at blocks
      show excess Token.blocks tokens = 0
      omega
  | cons around outer ih =>
      have isOuter : -1 ∈ around :: outer := by
        have isLast := laid.outermost
        rw [List.getLast?_cons_cons] at isLast
        exact List.mem_of_getLast? isLast
      have isInside : -1 < indent := (List.pairwise_cons.mp laid.deeper).1 (-1) isOuter
      rw [closeBlocks, if_pos isInside]
      exact ih laid.closeBlock

theorem IsLaid.excess_unwind (laid : progress.IsLaid) (outside : progress.depth = 0) :
    excess Token.blocks (progress.unwind (-1)).tokens = 0 := by
  have notInFlow : progress.inFlow = false := by
    rw [Progress.inFlow, outside]
    rfl
  rw [Progress.unwind, notInFlow]
  exact excess_closeBlocks laid

end Progress

/-! ## Tokens of documents -/

/-- In no beginning of the tokens is anything closed that is not open, and at the end of a
document no block is open outside of brackets. -/
structure TokenStream.Closes (stream : TokenStream) : Prop where
  blocks : ∀ front, front <+: stream.tokens → 0 ≤ excess Token.blocks front
  brackets : ∀ front, front <+: stream.tokens → 0 ≤ excess Token.brackets front
  atEnd : stream.fault = none → excess Token.brackets stream.tokens = 0 →
    excess Token.blocks stream.tokens = 0

theorem ClosesOpen.excess_prefix {opens : Token → Int} {tokens : List Token}
    (closes : ClosesOpen opens tokens) {front : List Token} (isFront : front <+: tokens.reverse) :
    0 ≤ excess opens front := by
  rw [← excess_reverse]
  refine closes front.reverse ?_
  rw [← List.reverse_prefix, List.reverse_reverse]
  exact isFront

theorem Laid.closes {tokens : List Token} {depth : Nat} {indents : List Int}
    (laid : Laid tokens depth indents) {fault : Option Fault}
    (atEnd : fault = none → depth = 0 → excess Token.blocks tokens = 0) :
    TokenStream.Closes ⟨tokens.reverse, fault⟩ where
  blocks _ isFront := laid.closesBlocks.excess_prefix isFront
  brackets _ isFront := laid.closesBrackets.excess_prefix isFront
  atEnd noFault outside := by
    rw [excess_reverse, laid.brackets, Int.natCast_eq_zero] at outside
    rw [excess_reverse]
    exact atEnd noFault outside

/-- Whatever follows what has been read, its tokens close only what is open. -/
theorem Progress.IsLaid.closes_tokensFrom (steps : Nat) {progress : Progress}
    (laid : progress.IsLaid) : (tokensFrom steps progress).Closes := by
  induction steps generalizing progress with
  | zero => exact Laid.closes laid nofun
  | succ steps ih =>
      unfold tokensFrom
      split
      · exact Laid.closes laid nofun
      · next reached approached =>
        have reachedLaid := laid.approach approached
        split
        · have closed := reachedLaid.unwind (-1)
          dsimp only
          split
          · exact Laid.closes closed nofun
          · refine Laid.closes closed fun _ outside => reachedLaid.excess_unwind ?_
            exact (depth_unwind (-1)).symm.trans outside
        · split
          · exact Laid.closes reachedLaid nofun
          · next read => exact ih (reachedLaid.token read)

/-- The tokens of every text close only what is open, and all blocks if no bracket is
left open. -/
theorem closes_tokenize (text : String) : (tokenize text).Closes := by
  unfold tokenize
  split
  · exact Progress.IsLaid.closes_tokensFrom _ Laid.nil
  · exact Laid.closes Laid.nil nofun

end Yaml

end Schematic
