import RollupNode.DerivationAttempt
import RollupNode.ExceptTraversal

set_option autoImplicit false

/-! The plan of an attempt: matching served blocks are kept, everything behind is rebuilt. -/
namespace RollupNode
open ExceptTraversal

def ConsecutiveAttributes (first : ℕ) (attributes : List DerivedAttributes) : Prop :=
  attributes.map (·.blockNumber) = List.range' first attributes.length

def matchedBlock (client : L2Client) (a : DerivedAttributes) : Option L2Block :=
  match client.blockByNumber a.blockNumber with
  | .ok (some block) =>
    if blockMatchesAttributes a.attributes a.baseFee block then some block else none
  | _ => none

def matchedBlocks (client : L2Client) : List DerivedAttributes → List L2Block
  | [] => []
  | a :: rest =>
    match matchedBlock client a with
    | some block => block :: matchedBlocks client rest
    | none => []

def keepAction (finalized : ℕ) (block : L2Block) : BlockConsolidationAction :=
  if block.number ≤ finalized then .skip block.withL1Messages else .updateFcs block.withL1Messages

variable {a : DerivedAttributes} {block : L2Block} {client : L2Client}
  {batch : BatchDerivationResult} {fcs : ForkchoiceState} {plan : BatchReconciliationResult}

theorem matchedBlock_eq_some (h : matchedBlock client a = some block) :
    client.blockByNumber a.blockNumber = .ok (some block) ∧
      blockMatchesAttributes a.attributes a.baseFee block = true := by
  unfold matchedBlock at h
  split at h
  · rename_i found hserved
    split at h
    · rename_i hmatch
      cases h
      exact ⟨hserved, hmatch⟩
    · cases h
  · cases h

theorem matchedBlock_of_served (hserved : client.blockByNumber a.blockNumber = .ok (some block))
    (hmatch : blockMatchesAttributes a.attributes a.baseFee block = true) :
    matchedBlock client a = some block := by
  simp only [matchedBlock, hserved, hmatch, if_true]

theorem matchedBlock_number (h : matchedBlock client a = some block) : block.number = a.blockNumber :=
  client.number_eq _ _ (matchedBlock_eq_some h).1

theorem matchedBlocks_length_le (client : L2Client) (attributes : List DerivedAttributes) :
    (matchedBlocks client attributes).length ≤ attributes.length := by
  induction attributes with
  | nil => exact Nat.le_refl _
  | cons a rest ih =>
    unfold matchedBlocks
    split
    · exact Nat.succ_le_succ ih
    · exact Nat.zero_le _

variable {attributes : List DerivedAttributes}

theorem matchedBlocks_get {i : ℕ} (h : (matchedBlocks client attributes)[i]? = some block) :
    ∃ a, attributes[i]? = some a ∧ matchedBlock client a = some block := by
  induction attributes generalizing i with
  | nil => cases h
  | cons a rest ih =>
    unfold matchedBlocks at h
    split at h
    · rename_i first hfirst
      cases i with
      | zero =>
        cases h
        exact ⟨a, rfl, hfirst⟩
      | succ i => exact ih h
    · cases h

theorem exists_of_mem_matchedBlocks (h : block ∈ matchedBlocks client attributes) :
    ∃ a ∈ attributes, matchedBlock client a = some block := by
  obtain ⟨i, hi⟩ := List.mem_iff_getElem?.1 h
  obtain ⟨a, ha, hmatched⟩ := matchedBlocks_get hi
  exact ⟨a, List.mem_of_getElem? ha, hmatched⟩

theorem matchedBlocks_numbers (client : L2Client) (attributes : List DerivedAttributes) :
    (matchedBlocks client attributes).map L2Block.number =
      (attributes.take (matchedBlocks client attributes).length).map (·.blockNumber) := by
  induction attributes with
  | nil => rfl
  | cons a rest ih =>
    unfold matchedBlocks
    split
    · rename_i block hblock
      rw [List.length_cons, List.take_succ_cons, List.map_cons, List.map_cons, ih,
        matchedBlock_number hblock]
    · rfl

theorem matchedBlock_at_length (h : attributes[(matchedBlocks client attributes).length]? = some a) :
    matchedBlock client a = none := by
  induction attributes with
  | nil => cases h
  | cons first rest ih =>
    unfold matchedBlocks at h
    split at h
    · exact ih h
    · rename_i hnone
      cases h
      exact hnone

theorem matchedBlocks_eq {blocks : List L2Block}
    (hmatched : ∀ (i : ℕ) (block : L2Block), blocks[i]? = some block →
      ∃ a, attributes[i]? = some a ∧ matchedBlock client a = some block)
    (hstop : ∀ a, attributes[blocks.length]? = some a → matchedBlock client a = none) :
    matchedBlocks client attributes = blocks := by
  induction attributes generalizing blocks with
  | nil =>
    cases blocks with
    | nil => rfl
    | cons block rest =>
      obtain ⟨a, ha, -⟩ := hmatched 0 block rfl
      cases ha
  | cons a attributes ih =>
    unfold matchedBlocks
    cases blocks with
    | nil => rw [hstop a rfl]
    | cons block rest =>
      obtain ⟨a', ha, hblock⟩ := hmatched 0 block rfl
      cases ha
      have hrest := ih (fun i b hb => hmatched (i + 1) b hb) hstop
      rw [hblock, hrest]

theorem matchedBlocks_length_eq_iff (client : L2Client) (attributes : List DerivedAttributes) :
    (matchedBlocks client attributes).length = attributes.length ↔
      ∀ a ∈ attributes, (matchedBlock client a).isSome := by
  induction attributes with
  | nil => simp [matchedBlocks]
  | cons a rest ih =>
    unfold matchedBlocks
    split
    · rename_i block hblock
      rw [List.length_cons, List.length_cons, Nat.succ_inj, ih, List.forall_mem_cons, hblock]
      simp
    · rename_i hnone
      refine iff_of_false (by simp) ?_
      intro hall
      have hsome := hall a List.mem_cons_self
      rw [hnone] at hsome
      cases hsome

namespace ConsecutiveAttributes

variable {first : ℕ} {attributes : List DerivedAttributes}

theorem get (h : ConsecutiveAttributes first attributes) {i : ℕ} (ha : attributes[i]? = some a) :
    a.blockNumber = first + i := by
  have hlt : i < attributes.length := (List.getElem?_eq_some_iff.1 ha).1
  have hmap : (attributes.map (·.blockNumber))[i]? = some a.blockNumber := by
    rw [List.getElem?_map, ha]
    rfl
  rw [h, List.getElem?_range' hlt] at hmap
  have hnumber := Option.some.inj hmap
  omega

theorem numbers_take (h : ConsecutiveAttributes first attributes) {n : ℕ}
    (hn : n ≤ attributes.length) :
    (attributes.take n).map (·.blockNumber) = List.range' first n := by
  rw [List.map_take, h, List.take_range'_of_length_ge hn]

theorem matched_numbers (h : ConsecutiveAttributes first attributes) (client : L2Client) :
    (matchedBlocks client attributes).map L2Block.number =
      List.range' first (matchedBlocks client attributes).length := by
  rw [matchedBlocks_numbers]
  exact h.numbers_take (matchedBlocks_length_le client attributes)

theorem matched_sorted (h : ConsecutiveAttributes first attributes) (client : L2Client) :
    (matchedBlocks client attributes).Pairwise (fun a b => a.number ≤ b.number) := by
  have hsorted : ((matchedBlocks client attributes).map L2Block.number).Pairwise (· ≤ ·) := by
    rw [h.matched_numbers client]
    exact List.pairwise_le_range'
  exact List.pairwise_map.1 hsorted

theorem last_number (h : ConsecutiveAttributes first attributes) {last : L2Block}
    (hlast : (matchedBlocks client attributes).getLast? = some last) :
    last.number + 1 = first + (matchedBlocks client attributes).length := by
  rw [List.getLast?_eq_getElem?] at hlast
  have hlt := (List.getElem?_eq_some_iff.1 hlast).1
  obtain ⟨a, ha, hmatched⟩ := matchedBlocks_get hlast
  have hnumber := matchedBlock_number hmatched
  have hheight := h.get ha
  omega

end ConsecutiveAttributes

def rebuildFrom (index : ℕ) : List BlockConsolidationAction → List BlockConsolidationAction
  | [] => []
  | action :: rest =>
    if action.isReorg then (List.range' index (rest.length + 1)).map .reorg
    else action :: rebuildFrom (index + 1) rest

theorem rebuildFrom_eq (index : ℕ) (actions : List BlockConsolidationAction) :
    (match actions.findIdx? BlockConsolidationAction.isReorg with
      | some first =>
        actions.mapIdx (fun i action => if first ≤ i then .reorg (index + i) else action)
      | none => actions) = rebuildFrom index actions := by
  induction actions generalizing index with
  | nil => rfl
  | cons action rest ih =>
    rw [List.findIdx?_cons]
    cases hreorg : action.isReorg with
    | true =>
      simp only [rebuildFrom, hreorg, if_true, Nat.zero_le]
      refine List.ext_getElem (by simp) ?_
      intro i hi hj
      rw [List.getElem_mapIdx, List.getElem_map, List.getElem_range', Nat.one_mul]
    | false =>
      simp only [rebuildFrom, hreorg, Bool.false_eq_true, if_false]
      rw [← ih (index + 1)]
      cases rest.findIdx? BlockConsolidationAction.isReorg with
      | none => rfl
      | some first =>
        simp only [Option.map_some, List.mapIdx_cons]
        refine congrArg (List.cons action) (List.mapIdx_eq_mapIdx_iff.2 ?_)
        intro i hi
        simp only [Nat.add_le_add_iff_right]
        rw [Nat.add_right_comm index 1 i, Nat.add_assoc]

theorem rebuildSuffix_eq_rebuildFrom (actions : List BlockConsolidationAction) :
    rebuildSuffix actions = rebuildFrom 0 actions := by
  rw [← rebuildFrom_eq]
  cases hfirst : actions.findIdx? BlockConsolidationAction.isReorg with
  | some first => simp only [rebuildSuffix, hfirst, Nat.zero_add]
  | none => simp only [rebuildSuffix, hfirst]

theorem keepAction_isReorg (finalized : ℕ) (block : L2Block) :
    (keepAction finalized block).isReorg = false := by
  unfold keepAction
  split <;> rfl

theorem keepAction_intoBlockInfo (finalized : ℕ) (block : L2Block) :
    (keepAction finalized block).intoBlockInfo = some block.withL1Messages := by
  unfold keepAction
  split <;> rfl

theorem consolidationAction_eq_ok {finalized index : ℕ} {action : BlockConsolidationAction}
    (h : consolidationAction client finalized index a = .ok action) :
    action = match matchedBlock client a with
      | some block => keepAction finalized block
      | none => .reorg index := by
  unfold consolidationAction at h
  cases hserved : client.blockByNumber a.blockNumber with
  | error e =>
    rw [hserved] at h
    cases h
  | ok found =>
    rw [hserved] at h
    cases found with
    | none =>
      cases h
      simp only [matchedBlock, hserved]
    | some block =>
      have hnumber := client.number_eq _ _ hserved
      simp only [matchedBlock, hserved]
      simp only [bind, Except.bind] at h
      split at h
      · rename_i hmatch
        simp only [hmatch, if_true, keepAction, hnumber]
        split at h
        · rename_i hle
          cases h
          rw [if_pos hle]
        · rename_i hle
          cases h
          rw [if_neg hle]
      · rename_i hmatch
        cases h
        simp only [hmatch]
        rfl

def plannedActions (client : L2Client) (finalized index : ℕ)
    (attributes : List DerivedAttributes) : List BlockConsolidationAction :=
  let matched := matchedBlocks client attributes
  matched.map (keepAction finalized) ++
    (List.range' (index + matched.length) (attributes.length - matched.length)).map .reorg

theorem rebuildFrom_eq_plannedActions {finalized index : ℕ}
    {actions : List BlockConsolidationAction}
    (h : (attributes.zipIdx index).mapM
      (fun (a, i) => consolidationAction client finalized i a) = .ok actions) :
    rebuildFrom index actions = plannedActions client finalized index attributes := by
  induction attributes generalizing index actions with
  | nil =>
    cases h
    rfl
  | cons a rest ih =>
    have hlength := (mapM_ok_spec h).1
    rw [List.zipIdx_cons, List.mapM_cons] at h
    obtain ⟨action, haction, h⟩ := bind_eq_ok.1 h
    obtain ⟨later, hlater, h⟩ := bind_eq_ok.1 h
    cases h
    have hkept := consolidationAction_eq_ok haction
    cases hmatched : matchedBlock client a with
    | some block =>
      simp only [hmatched] at hkept
      subst hkept
      simp only [rebuildFrom, keepAction_isReorg, Bool.false_eq_true, if_false, ih hlater,
        plannedActions, matchedBlocks, hmatched, List.map_cons, List.length_cons, List.cons_append,
        Nat.add_sub_add_right]
      rw [Nat.add_right_comm index 1, Nat.add_assoc]
    | none =>
      simp only [hmatched] at hkept
      subst hkept
      simp only [List.length_cons, List.length_zipIdx, Nat.succ_inj] at hlength
      simp only [rebuildFrom, BlockConsolidationAction.isReorg, if_true, plannedActions,
        matchedBlocks, hmatched, hlength, List.map_nil, List.nil_append, List.length_nil,
        List.length_cons, Nat.add_zero, Nat.sub_zero]

theorem reconcileBatch_eq_ok (h : reconcileBatch client batch fcs = .ok plan) :
    plan = ⟨batch.batchInfo, plannedActions client fcs.finalized.number 0 batch.attributes,
      batch.targetStatus⟩ := by
  unfold reconcileBatch at h
  obtain ⟨actions, hactions, h⟩ := bind_eq_ok.1 h
  cases h
  rw [rebuildSuffix_eq_rebuildFrom, rebuildFrom_eq_plannedActions hactions]

theorem reconcileBatch_actions (h : reconcileBatch client batch fcs = .ok plan) :
    plan.actions = plannedActions client fcs.finalized.number 0 batch.attributes := by
  rw [reconcileBatch_eq_ok h]

namespace BatchReconciliationResult

variable {action next : BlockConsolidationAction} {actions : List BlockConsolidationAction}

theorem mem_of_mem_aggregateAction (h : action ∈ aggregateAction actions next) :
    action ∈ actions ∨ action = next := by
  unfold aggregateAction at h
  split at h
  · split at h
    · rcases List.mem_append.1 h with h | h
      · exact Or.inl (List.dropLast_subset _ h)
      · exact Or.inr (List.mem_singleton.1 h)
    · rcases List.mem_append.1 h with h | h
      · exact Or.inl h
      · exact Or.inr (List.mem_singleton.1 h)
  · split at h
    · exact Or.inl h
    · rcases List.mem_append.1 h with h | h
      · exact Or.inl h
      · exact Or.inr (List.mem_singleton.1 h)

theorem mem_of_mem_foldl_aggregateAction (actions : List BlockConsolidationAction)
    (h : action ∈ actions.foldl aggregateAction []) : action ∈ actions := by
  induction actions using List.reverseRecOn with
  | nil => cases h
  | append_singleton actions next ih =>
    rw [List.foldl_append] at h
    rcases mem_of_mem_aggregateAction h with h | rfl
    · exact List.mem_append_left _ (ih h)
    · exact List.mem_append_right _ List.mem_cons_self

theorem mem_aggregateAction_of_mem (next : BlockConsolidationAction)
    (hkept : action.isUpdateFcs = false) (h : action ∈ actions) :
    action ∈ aggregateAction actions next := by
  unfold aggregateAction
  split
  · rename_i last hlast
    split
    · rename_i hupdate
      refine List.mem_append_left _ ?_
      rw [← List.dropLast_append_getLast? _ hlast] at h
      rcases List.mem_append.1 h with h | h
      · exact h
      · rw [← List.mem_singleton.1 h, hkept] at hupdate
        cases hupdate.1
    · exact List.mem_append_left _ h
  · split
    · exact h
    · exact List.mem_append_left _ h

theorem next_mem_aggregateAction (h : actions ≠ [] ∨ next.isSkip = false) :
    next ∈ aggregateAction actions next := by
  unfold aggregateAction
  split
  · split
    · exact List.mem_append_right _ List.mem_cons_self
    · exact List.mem_append_right _ List.mem_cons_self
  · rename_i hnone
    split
    · rename_i hskip
      rcases h with h | h
      · exact absurd (List.getLast?_eq_none_iff.1 hnone) h
      · rw [h] at hskip
        cases hskip
    · exact List.mem_append_right _ List.mem_cons_self

end BatchReconciliationResult

/-- What is left of the kept blocks after aggregation: one update to the last of them, unless it
is final already. -/
def confirmActions (finalized : ℕ) (matched : List L2Block) : List BlockConsolidationAction :=
  match matched.getLast? with
  | some last => if last.number ≤ finalized then [] else [.updateFcs last.withL1Messages]
  | none => []

theorem confirmActions_concat (finalized : ℕ) (matched : List L2Block) (last : L2Block) :
    confirmActions finalized (matched ++ [last]) =
      if last.number ≤ finalized then [] else [.updateFcs last.withL1Messages] := by
  simp only [confirmActions, List.getLast?_concat]

open BatchReconciliationResult

def FinalizedFirst (finalized : ℕ) (blocks : List L2Block) : Prop :=
  blocks.Pairwise (fun a b => b.number ≤ finalized → a.number ≤ finalized)

instance (finalized : ℕ) (blocks : List L2Block) : Decidable (FinalizedFirst finalized blocks) := by
  unfold FinalizedFirst
  infer_instance

theorem finalizedFirst_of_sorted {blocks : List L2Block} (finalized : ℕ)
    (h : blocks.Pairwise (fun a b => a.number ≤ b.number)) : FinalizedFirst finalized blocks :=
  h.imp (fun hle hfinal => Nat.le_trans hle hfinal)

theorem foldl_aggregateAction_keep {finalized : ℕ} {matched : List L2Block}
    (hfirst : FinalizedFirst finalized matched) :
    (matched.map (keepAction finalized)).foldl aggregateAction [] =
      confirmActions finalized matched := by
  induction matched using List.reverseRecOn with
  | nil => rfl
  | append_singleton matched last ih =>
    obtain ⟨hbefore, -, hlast⟩ := List.pairwise_append.1 hfirst
    rw [List.map_append, List.foldl_append, ih hbefore, confirmActions_concat]
    by_cases hle : last.number ≤ finalized
    · -- the blocks before a final one are final, so nothing has been collected yet
      have hempty : confirmActions finalized matched = [] := by
        unfold confirmActions
        split
        · rename_i previous hprevious
          have hmem := List.mem_of_getLast? hprevious
          exact if_pos (hlast previous hmem last List.mem_cons_self hle)
        · rfl
      rw [hempty, if_pos hle]
      simp only [List.map_cons, List.map_nil, List.foldl_cons, List.foldl_nil, keepAction, hle,
        if_true]
      rfl
    · rw [if_neg hle]
      simp only [List.map_cons, List.map_nil, List.foldl_cons, List.foldl_nil, keepAction, hle,
        if_false]
      unfold confirmActions
      split
      · split
        · rfl
        · rfl
      · rfl

theorem foldl_aggregateAction_reorg (actions : List BlockConsolidationAction)
    (indices : List ℕ) :
    (indices.map BlockConsolidationAction.reorg).foldl aggregateAction actions =
      actions ++ indices.map .reorg := by
  induction indices generalizing actions with
  | nil => rw [List.map_nil, List.foldl_nil, List.append_nil]
  | cons index rest ih =>
    have hone : aggregateAction actions (.reorg index) = actions ++ [.reorg index] := by
      unfold aggregateAction
      split
      · exact if_neg (fun h => Bool.false_ne_true h.2)
      · exact if_neg Bool.false_ne_true
    rw [List.map_cons, List.foldl_cons, hone, ih, List.append_assoc]
    rfl

/-- The kept blocks come first, whatever is left of them, and behind them all others are rebuilt. -/
theorem aggregateActions_split (hplan : reconcileBatch client batch fcs = .ok plan) :
    ∃ front, (∀ action ∈ front, ∃ block ∈ matchedBlocks client batch.attributes,
        action = keepAction fcs.finalized.number block) ∧
      plan.aggregateActions = front ++
        (List.range' (matchedBlocks client batch.attributes).length
          (batch.attributes.length - (matchedBlocks client batch.attributes).length)).map .reorg := by
  refine ⟨((matchedBlocks client batch.attributes).map (keepAction fcs.finalized.number)).foldl
    aggregateAction [], ?_, ?_⟩
  · intro action haction
    obtain ⟨block, hblock, rfl⟩ := List.mem_map.1 (mem_of_mem_foldl_aggregateAction _ haction)
    exact ⟨block, hblock, rfl⟩
  · rw [BatchReconciliationResult.aggregateActions, reconcileBatch_actions hplan, plannedActions]
    simp only [List.foldl_append, foldl_aggregateAction_reorg, Nat.zero_add]

def aggregatedActions (client : L2Client) (finalized : ℕ)
    (attributes : List DerivedAttributes) : List BlockConsolidationAction :=
  let matched := matchedBlocks client attributes
  confirmActions finalized matched ++
    (List.range' matched.length (attributes.length - matched.length)).map .reorg

theorem aggregateActions_eq_of_finalizedFirst
    (hfirst : FinalizedFirst fcs.finalized.number (matchedBlocks client batch.attributes))
    (h : reconcileBatch client batch fcs = .ok plan) :
    plan.aggregateActions =
      aggregatedActions client fcs.finalized.number batch.attributes := by
  unfold BatchReconciliationResult.aggregateActions
  rw [reconcileBatch_actions h]
  simp only [plannedActions, List.foldl_append, Nat.zero_add]
  rw [foldl_aggregateAction_keep hfirst, foldl_aggregateAction_reorg]
  rfl

theorem aggregateActions_eq {first : ℕ}
    (hconsecutive : ConsecutiveAttributes first batch.attributes)
    (h : reconcileBatch client batch fcs = .ok plan) :
    plan.aggregateActions =
      aggregatedActions client fcs.finalized.number batch.attributes :=
  aggregateActions_eq_of_finalizedFirst
    (finalizedFirst_of_sorted _ (hconsecutive.matched_sorted client)) h

theorem intoBatchConsolidationOutcome_blocks (h : reconcileBatch client batch fcs = .ok plan)
    (rebuilt : List L2BlockInfoWithL1Messages) (l2HeadUpdated : Bool) :
    (plan.intoBatchConsolidationOutcome rebuilt l2HeadUpdated).blocks =
      (matchedBlocks client batch.attributes).map L2Block.withL1Messages ++ rebuilt := by
  have hkept : ∀ matched : List L2Block,
      (matched.map (keepAction fcs.finalized.number)).filterMap
        BlockConsolidationAction.intoBlockInfo = matched.map L2Block.withL1Messages := by
    intro matched
    rw [List.filterMap_map, ← List.filterMap_eq_map]
    refine List.filterMap_congr ?_
    intro block _
    exact keepAction_intoBlockInfo _ block
  have hdropped : ∀ indices : List ℕ,
      (indices.map BlockConsolidationAction.reorg).filterMap
        BlockConsolidationAction.intoBlockInfo = [] := by
    intro indices
    rw [List.filterMap_map, List.filterMap_eq_nil_iff]
    intro index _
    rfl
  simp only [BatchReconciliationResult.intoBatchConsolidationOutcome, reconcileBatch_actions h,
    plannedActions, List.filterMap_append, hkept, hdropped, List.append_nil]

end RollupNode
