import Schematic.Proofs.Outcome
import Schematic.Yaml.Value

/-!
# Actions that find values

The values of a document are found by actions that may fail, some of which rework the
nodes on the way.  This file tells what holds where such an action ends, if it does, and
that the number of nodes stays the same.
-/

namespace Schematic

namespace Yaml

/-! ## Where actions end -/

section

variable {σ α β ι : Type}

/-- If an action that begins in a certain state succeeds, its result and the last state
are good. -/
def Ends (action : StateT σ (Except Fault) α) (start : σ) (good : α → σ → Prop) : Prop :=
  ∀ value final, action.run start = .ok (value, final) → good value final

variable {action : StateT σ (Except Fault) α} {next : α → StateT σ (Except Fault) β}
  {start : σ} {good better : α → σ → Prop} {goodNext : β → σ → Prop}

theorem Ends.mono (ends : Ends action start better)
    (weaker : ∀ value final, better value final → good value final) : Ends action start good :=
  fun value final succeeds => weaker value final (ends value final succeeds)

theorem Ends.bind (ends : Ends action start good)
    (endsNext : ∀ value between, good value between → Ends (next value) between goodNext) :
    Ends (action >>= next) start goodNext := by
  intro result final succeeds
  rw [StateT.run_bind] at succeeds
  cases first : action.run start with
  | error fault =>
      rw [first] at succeeds
      cases succeeds
  | ok reached =>
      rw [first] at succeeds
      exact endsNext reached.1 reached.2 (ends _ _ first) result final succeeds

theorem ends_pure {value : α} (isGood : good value start) : Ends (pure value) start good := by
  intro result final succeeds
  cases succeeds
  exact isGood

theorem ends_throw (fault : Fault) : Ends (throw fault) start good := by
  intro result final succeeds
  cases succeeds

theorem ends_get : Ends get start fun value final => start = value ∧ start = final := by
  intro result final succeeds
  cases succeeds
  exact ⟨rfl, rfl⟩

theorem ends_set {goodState : PUnit → σ → Prop} {state : σ} (isGood : goodState ⟨⟩ state) :
    Ends (set state) start goodState := by
  intro result final succeeds
  cases succeeds
  exact isGood

theorem ends_modify {goodState : PUnit → σ → Prop} {change : σ → σ}
    (isGood : goodState ⟨⟩ (change start)) : Ends (modify change) start goodState := by
  intro result final succeeds
  cases succeeds
  exact isGood

theorem ends_lift {outcome : Except Fault α}
    (isGood : ∀ value, outcome = .ok value → good value start) :
    Ends (liftM outcome) start good := by
  intro result final succeeds
  cases outcome with
  | error fault => cases succeeds
  | ok value =>
      cases succeeds
      exact isGood _ rfl

end

/-! ## Work on the nodes -/

namespace Reworking

/-- An action neither adds nor removes nodes. -/
def KeepsCount {α : Type} (work : Reworking α) : Prop :=
  ∀ nodes, Ends work nodes fun _ final => final.size = nodes.size

section

variable {α β : Type}

theorem keepsCount_pure (value : α) : KeepsCount (pure value) :=
  fun _ => ends_pure rfl

theorem keepsCount_throw (fault : Fault) : KeepsCount (throw fault : Reworking α) :=
  fun _ => ends_throw fault

theorem keepsCount_get : KeepsCount get :=
  fun _ => ends_get.mono fun _ _ same => congrArg Array.size same.2.symm

theorem KeepsCount.bind {work : Reworking α} {next : α → Reworking β} (keeps : work.KeepsCount)
    (keepsNext : ∀ value, (next value).KeepsCount) : (work >>= next).KeepsCount :=
  fun nodes => (keeps nodes).bind fun value between same =>
    (keepsNext value between).mono fun _ _ => (·.trans same)

theorem KeepsCount.mapM {work : α → Reworking β} (keeps : ∀ item, (work item).KeepsCount)
    (items : List α) : (items.mapM work).KeepsCount := by
  induction items with
  | nil => exact keepsCount_pure []
  | cons item rest ih =>
      rw [List.mapM_cons]
      exact (keeps item).bind fun _ => ih.bind fun _ => keepsCount_pure _

end

theorem keepsCount_content (id : NodeId) : (content id).KeepsCount := by
  refine keepsCount_get.bind fun nodes => ?_
  split
  · exact keepsCount_pure _
  · exact keepsCount_throw _

theorem keepsCount_pairs (id : NodeId) : (pairs id).KeepsCount := by
  refine (keepsCount_content id).bind fun content => ?_
  split
  · exact keepsCount_pure _
  · exact keepsCount_throw _

theorem keepsCount_setPairs (id : NodeId) (pairs : List NodePair) :
    (setPairs id pairs).KeepsCount :=
  fun _ => ends_modify Array.size_modify

theorem keepsCount_tag (id : NodeId) : (tag id).KeepsCount :=
  keepsCount_get.bind fun _ => keepsCount_pure _

theorem keepsCount_takeForText (id : NodeId) : (takeForText id).KeepsCount :=
  fun _ => ends_modify Array.size_modify

theorem keepsCount_mergeIndex? (pairs : List NodePair) : (mergeIndex? pairs).KeepsCount := by
  induction pairs with
  | nil => exact keepsCount_pure none
  | cons pair rest ih =>
      refine (keepsCount_tag pair.1).bind fun tag => ?_
      have later := ih.bind fun index => keepsCount_pure (index.map (· + 1))
      split
      · exact keepsCount_pure _
      · exact (keepsCount_takeForText _).bind fun _ => later
      · exact later

theorem keepsCount_brought {replace : NodeId → Reworking Unit}
    (keeps : ∀ id, (replace id).KeepsCount) (value : NodeId) :
    (brought replace value).KeepsCount := by
  refine (keepsCount_content value).bind fun content => ?_
  split
  · exact (keeps value).bind fun _ => keepsCount_pairs value
  · refine (KeepsCount.mapM (fun item => ?_) _).bind fun _ => keepsCount_pure _
    exact (keepsCount_pairs item).bind fun _ => (keeps item).bind fun _ => keepsCount_pairs item
  · exact keepsCount_throw _

theorem keepsCount_replaceFrom (steps : Nat) (id : NodeId) (index : Nat)
    (taken : List NodePair) : (replaceFrom steps id index taken).KeepsCount := by
  induction steps generalizing id index taken with
  | zero => exact keepsCount_throw _
  | succ steps ih =>
      unfold replaceFrom
      refine (keepsCount_pairs id).bind fun present => ?_
      refine (keepsCount_mergeIndex? _).bind fun offset => ?_
      cases offset with
      | none => exact keepsCount_setPairs id _
      | some offset =>
          refine (keepsCount_setPairs id _).bind fun _ => ?_
          dsimp only
          split
          · exact (keepsCount_brought (fun id => ih id 0 []) _).bind fun _ => ih id _ _
          · exact (keepsCount_pure _).bind fun _ => ih id _ _

theorem keepsCount_replaceMerges (steps : Nat) (id : NodeId) :
    (replaceMerges steps id).KeepsCount :=
  keepsCount_replaceFrom steps id 0 []

end Reworking

namespace Valuing

open Reworking

theorem keepsCount_standIn? (pairs : List NodePair) : (standIn? pairs).KeepsCount := by
  induction pairs with
  | nil => exact keepsCount_pure none
  | cons pair rest ih =>
      refine (keepsCount_tag pair.1).bind fun tag => ?_
      split
      · exact keepsCount_pure _
      · exact ih

theorem keepsCount_text (steps : Nat) (id : NodeId) : (text steps id).KeepsCount := by
  induction steps generalizing id with
  | zero => exact keepsCount_throw _
  | succ steps ih =>
      refine (keepsCount_content id).bind fun content => ?_
      split
      · exact keepsCount_pure _
      · exact keepsCount_throw _
      · refine (keepsCount_standIn? _).bind fun standIn => ?_
        split
        · exact ih _
        · exact keepsCount_throw _

end Valuing

end Yaml

end Schematic
