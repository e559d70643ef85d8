import RollupNode.AttemptGuarantees
import RollupNode.DecodedBlocks

set_option autoImplicit false

/-! The shape of the plan of a derived batch. Skips are dropped in front of the plan only. -/
namespace RollupNode
open BatchReconciliationResult

/-- At most one update, to the last matching block in front of the first mismatch, and then a
rebuild of every block from there on. -/
structure PlanShape (client : L2Client) (finalized : ℕ) (attributes : List DerivedAttributes)
    (actions : List BlockConsolidationAction) : Prop where
  no_skip : ∀ action ∈ actions, action.isSkip = false
  shape : ∃ confirm,
    actions = confirm ++ (List.range' (matchedBlocks client attributes).length
      (attributes.length - (matchedBlocks client attributes).length)).map .reorg ∧
    (confirm = [] ∨ ∃ last, (matchedBlocks client attributes).getLast? = some last ∧
      confirm = [.updateFcs last.withL1Messages])
  empty_iff : actions = [] ↔
    ∀ a ∈ attributes, ∃ block, matchedBlock client a = some block ∧ block.number ≤ finalized

variable {finalized : ℕ} {matched : List L2Block}

theorem confirmActions_eq_nil_iff (h : FinalizedFirst finalized matched) :
    confirmActions finalized matched = [] ↔ ∀ block ∈ matched, block.number ≤ finalized := by
  induction matched using List.reverseRecOn with
  | nil => simp [confirmActions]
  | append_singleton matched last _ =>
    obtain ⟨-, -, hlast⟩ := List.pairwise_append.1 h
    rw [confirmActions_concat]
    constructor
    · intro hnil block hblock
      have hfinal : last.number ≤ finalized := by
        by_contra hgt
        rw [if_neg hgt] at hnil
        cases hnil
      rcases List.mem_append.1 hblock with hblock | hblock
      · exact hlast block hblock last List.mem_cons_self hfinal
      · rw [List.mem_singleton.1 hblock]
        exact hfinal
    · intro hall
      exact if_pos (hall last (List.mem_append_right _ List.mem_cons_self))

theorem skip_mem_foldl_aggregateAction (h : ¬FinalizedFirst finalized matched) :
    ∃ action ∈ (matched.map (keepAction finalized)).foldl aggregateAction [],
      action.isSkip = true := by
  induction matched using List.reverseRecOn with
  | nil => exact absurd List.Pairwise.nil h
  | append_singleton matched last ih =>
    rw [List.map_append, List.foldl_append]
    simp only [List.map_cons, List.map_nil, List.foldl_cons, List.foldl_nil]
    by_cases hbefore : FinalizedFirst finalized matched
    · -- a block that is not final has been collected, and the last one is final
      have hmixed : last.number ≤ finalized ∧ ¬∀ block ∈ matched, block.number ≤ finalized := by
        by_contra hnot
        refine h (List.pairwise_append.2 ⟨hbefore, List.pairwise_singleton _ _, ?_⟩)
        intro a ha b hb hfinal
        rw [List.mem_singleton.1 hb] at hfinal
        by_contra hgt
        exact hnot ⟨hfinal, fun hall => hgt (hall a ha)⟩
      refine ⟨keepAction finalized last, next_mem_aggregateAction (Or.inl ?_), ?_⟩
      · rw [foldl_aggregateAction_keep hbefore]
        exact fun hnil => hmixed.2 ((confirmActions_eq_nil_iff hbefore).1 hnil)
      · rw [keepAction, if_pos hmixed.1]
        rfl
    · obtain ⟨action, hmem, hskip⟩ := ih hbefore
      refine ⟨action, mem_aggregateAction_of_mem _ ?_ hmem, hskip⟩
      cases action with
      | skip block => rfl
      | updateFcs block => cases hskip
      | reorg index => cases hskip

theorem confirmActions_cases (finalized : ℕ) (matched : List L2Block) :
    confirmActions finalized matched = [] ∨ ∃ last, matched.getLast? = some last ∧
      confirmActions finalized matched = [.updateFcs last.withL1Messages] := by
  unfold confirmActions
  cases hlast : matched.getLast? with
  | none => exact Or.inl rfl
  | some last =>
    by_cases hle : last.number ≤ finalized
    · exact Or.inl (if_pos hle)
    · exact Or.inr ⟨last, rfl, if_neg hle⟩

variable {client : L2Client} {attributes : List DerivedAttributes}

theorem aggregatedActions_eq_nil_iff
    (h : FinalizedFirst finalized (matchedBlocks client attributes)) :
    aggregatedActions client finalized attributes = [] ↔
      ∀ a ∈ attributes, ∃ block, matchedBlock client a = some block ∧
        block.number ≤ finalized := by
  have hle := matchedBlocks_length_le client attributes
  have hlength : attributes.length - (matchedBlocks client attributes).length = 0 ↔
      ∀ a ∈ attributes, (matchedBlock client a).isSome := by
    rw [← matchedBlocks_length_eq_iff]
    omega
  rw [aggregatedActions, List.append_eq_nil_iff, List.map_eq_nil_iff, List.range'_eq_nil_iff,
    hlength, confirmActions_eq_nil_iff h]
  constructor
  · rintro ⟨hfinal, hall⟩ a ha
    obtain ⟨block, hblock⟩ := Option.isSome_iff_exists.1 (hall a ha)
    obtain ⟨i, hi, rfl⟩ := List.mem_iff_getElem.1 ha
    have hcount := (matchedBlocks_length_eq_iff client attributes).2 hall
    obtain ⟨a', ha', hmatched⟩ := matchedBlocks_get
      (List.getElem?_eq_getElem (hcount.symm ▸ hi))
    rw [List.getElem?_eq_getElem hi] at ha'
    cases ha'
    exact ⟨_, hmatched, hfinal _ (List.getElem_mem _)⟩
  · intro hall
    constructor
    · intro block hblock
      obtain ⟨a, ha, hmatched⟩ := exists_of_mem_matchedBlocks hblock
      obtain ⟨block', hblock', hfinal⟩ := hall a ha
      rw [hmatched] at hblock'
      cases hblock'
      exact hfinal
    · intro a ha
      obtain ⟨block, hblock, -⟩ := hall a ha
      rw [hblock]
      rfl

theorem planShape_aggregatedActions (h : FinalizedFirst finalized (matchedBlocks client attributes)) :
    PlanShape client finalized attributes (aggregatedActions client finalized attributes) where
  no_skip := by
    intro action haction
    rcases List.mem_append.1 haction with hconfirm | hreorg
    · rcases confirmActions_cases finalized (matchedBlocks client attributes) with hnil | hlast
      · rw [hnil] at hconfirm
        cases hconfirm
      · obtain ⟨last, -, heq⟩ := hlast
        rw [heq] at hconfirm
        rw [List.mem_singleton.1 hconfirm]
        rfl
    · obtain ⟨index, -, rfl⟩ := List.mem_map.1 hreorg
      rfl
  shape := ⟨_, rfl, confirmActions_cases _ _⟩
  empty_iff := aggregatedActions_eq_nil_iff h

/-- A plan has its shape exactly when, among the blocks that match in front of the first mismatch,
no final one comes after one that is not. -/
theorem planShape_iff {batch : BatchDerivationResult} {plan : BatchReconciliationResult}
    {fcs : ForkchoiceState} (h : reconcileBatch client batch fcs = .ok plan) :
    PlanShape client fcs.finalized.number batch.attributes plan.aggregateActions ↔
      FinalizedFirst fcs.finalized.number (matchedBlocks client batch.attributes) := by
  constructor
  · intro hshape
    by_contra hmixed
    obtain ⟨action, hmem, hskip⟩ := skip_mem_foldl_aggregateAction hmixed
    have hkept : action ∈ plan.aggregateActions := by
      unfold BatchReconciliationResult.aggregateActions
      rw [reconcileBatch_actions h, plannedActions, List.foldl_append, foldl_aggregateAction_reorg]
      exact List.mem_append_left _ hmem
    rw [hshape.no_skip action hkept] at hskip
    cases hskip
  · intro hfirst
    rw [aggregateActions_eq_of_finalizedFirst hfirst h]
    exact planShape_aggregatedActions hfirst

theorem numbers_of_no_wrap {initial count : ℕ}
    (h : ∀ n ∈ (List.range count).map (fun i => (initial + i) % 2 ^ 64), n + 1 < 2 ^ 64) :
    (List.range count).map (fun i => (initial + i) % 2 ^ 64) =
      List.range' (initial % 2 ^ 64) count := by
  have hplace : ∀ i, i < count → (initial + i) % 2 ^ 64 = initial % 2 ^ 64 + i := by
    intro i
    induction i with
    | zero => intro _; rfl
    | succ i ih =>
      intro hi
      have hprevious := ih (by omega)
      have hroom := h _ (List.mem_map.2 ⟨i, List.mem_range.2 (by omega), rfl⟩)
      omega
  rw [List.range'_eq_map_range]
  refine List.map_congr_left ?_
  intro i hi
  exact hplace i (List.mem_range.1 hi)

theorem planShape_of_derive {batch : BatchDerivationResult} {plan : BatchReconciliationResult}
    {inputs : DerivationInputs} {commit : BatchCommitData} {targetStatus : BatchStatus}
    {fcs : ForkchoiceState} {version : ℕ}
    (hversion : Codec.getCodecVersion commit.calldata = .ok version) (hseven : 7 ≤ version)
    (hbatch : derive inputs commit targetStatus = .ok batch)
    (hroom : ∀ a ∈ batch.attributes, a.blockNumber + 1 < 2 ^ 64)
    (h : reconcileBatch client batch fcs = .ok plan) :
    (∃ first, ConsecutiveAttributes first batch.attributes) ∧
      PlanShape client fcs.finalized.number batch.attributes plan.aggregateActions := by
  have hconsecutive : ∃ first, ConsecutiveAttributes first batch.attributes := by
    obtain ⟨blob, decoded, hdecoded, hnumbers⟩ := derive_numbers hbatch
    obtain ⟨version', hversion', -, hnumbered, -⟩ := Codec.decode_spec hdecoded
    obtain rfl : version' = version := Except.ok.inj (hversion'.symm.trans hversion)
    obtain ⟨initial, hinitial⟩ := hnumbered hseven
    have hlength : decoded.data.blocks.length = batch.attributes.length := by
      have hmap := congrArg List.length hnumbers
      rw [List.length_map, List.length_map] at hmap
      exact hmap.symm
    rw [hinitial, hlength] at hnumbers
    refine ⟨initial % 2 ^ 64, ?_⟩
    rw [ConsecutiveAttributes, hnumbers]
    refine numbers_of_no_wrap ?_
    intro n hn
    rw [← hnumbers] at hn
    obtain ⟨a, ha, rfl⟩ := List.mem_map.1 hn
    exact hroom a ha
  refine ⟨hconsecutive, (planShape_iff h).2 ?_⟩
  obtain ⟨first, hfirst⟩ := hconsecutive
  exact finalizedFirst_of_sorted _ (hfirst.matched_sorted client)

/-- What the plan of a derived batch looks like: as meant exactly when the heights of the matching
blocks are not out of order around the finalized block, and always from version 7 on. -/
theorem plan_of_derived_batch {inputs : DerivationInputs} {commit : BatchCommitData}
    {targetStatus : BatchStatus} {batch : BatchDerivationResult} {client : L2Client}
    {fcs : ForkchoiceState} {plan : BatchReconciliationResult}
    (hbatch : derive inputs commit targetStatus = .ok batch)
    (h : reconcileBatch client batch fcs = .ok plan) :
    (PlanShape client fcs.finalized.number batch.attributes plan.aggregateActions ↔
      FinalizedFirst fcs.finalized.number (matchedBlocks client batch.attributes)) ∧
    (∀ version, Codec.getCodecVersion commit.calldata = .ok version → 7 ≤ version →
      (∀ a ∈ batch.attributes, a.blockNumber + 1 < 2 ^ 64) →
      PlanShape client fcs.finalized.number batch.attributes plan.aggregateActions) := by
  refine ⟨planShape_iff h, ?_⟩
  intro version hversion hseven hroom
  exact (planShape_of_derive hversion hseven hbatch hroom h).2

def contextBytes (number : ℕ) : Bytes := ByteReader.beBytes 8 number ++ List.replicate 52 0

def twoBlockInputs (first second : ℕ) : DerivationInputs where
  externals :=
    { tryDecode := fun _ => some (.commitBatch ⟨0, List.replicate 89 0,
        [2 :: (contextBytes first ++ contextBytes second)], []⟩)
      decompressBlobData := id }
  build := ⟨false⟩
  provider := ⟨fun _ _ => .ok none, fun _ _ => .ok []⟩
  cache := fun _ => .ok none
  encode := fun _ => []
  l1V2MessageQueueStartIndex := 0

def twoBlockCommit : BatchCommitData := ⟨11, 1, 10, 0, List.replicate 36 0, none, none, none⟩

def feelessBlock (number : ℕ) (hash parentHash : B256) : L2Block :=
  { emptyBlock number hash parentHash with baseFeePerGas := some 0 }

def feelessChain : L2Client :=
  .ofChain [feelessBlock 3 23 22, feelessBlock 4 24 23, feelessBlock 5 25 24]

def feelessAttributes (number : ℕ) : DerivedAttributes :=
  ⟨number, 0, ⟨0, 0, some [], some 0, ⟨none, none, none, none, none⟩⟩⟩

def twoBlockBatch (first second : ℕ) : BatchDerivationResult :=
  ⟨[feelessAttributes first, feelessAttributes second], ⟨1, 11⟩, [], .consolidated⟩

theorem derive_inOrder :
    derive (twoBlockInputs 4 5) twoBlockCommit .consolidated = .ok (twoBlockBatch 4 5) := rfl

theorem derive_outOfOrder :
    derive (twoBlockInputs 5 3) twoBlockCommit .consolidated = .ok (twoBlockBatch 5 3) := rfl

theorem plan_of_derived_batch_inOrder :
    ∃ plan, derive (twoBlockInputs 4 5) twoBlockCommit .consolidated = .ok (twoBlockBatch 4 5) ∧
      reconcileBatch feelessChain (twoBlockBatch 4 5) ⟨⟨5, 25⟩, ⟨4, 24⟩, ⟨4, 24⟩⟩ = .ok plan ∧
      PlanShape feelessChain 4 (twoBlockBatch 4 5).attributes plan.aggregateActions := by
  obtain ⟨plan, hplan⟩ : ∃ plan, reconcileBatch feelessChain (twoBlockBatch 4 5)
    ⟨⟨5, 25⟩, ⟨4, 24⟩, ⟨4, 24⟩⟩ = .ok plan := ⟨_, rfl⟩
  exact ⟨plan, derive_inOrder, hplan,
    (plan_of_derived_batch derive_inOrder hplan).1.2 (by decide)⟩

/-- Block 5 stands before block 3 in the batch, and block 4 is final: the plan keeps a skip, on
which the attempt panics. -/
theorem plan_of_derived_batch_outOfOrder :
    ∃ plan, derive (twoBlockInputs 5 3) twoBlockCommit .consolidated = .ok (twoBlockBatch 5 3) ∧
      reconcileBatch feelessChain (twoBlockBatch 5 3) ⟨⟨5, 25⟩, ⟨4, 24⟩, ⟨4, 24⟩⟩ = .ok plan ∧
      plan.aggregateActions =
        [.updateFcs (feelessBlock 5 25 24).withL1Messages,
          .skip (feelessBlock 3 23 22).withL1Messages] ∧
      ¬PlanShape feelessChain 4 (twoBlockBatch 5 3).attributes plan.aggregateActions ∧
      performActions (twoBlockBatch 5 3) ⟨⟨5, 25⟩, ⟨4, 24⟩, ⟨4, 24⟩⟩ ⟨[], false⟩
        plan.aggregateActions (fun _ => plainReplies 24 5 25) =
          (⟨⟨5, 25⟩, ⟨5, 25⟩, ⟨4, 24⟩⟩,
            .error (.panic "Skip actions have been filtered out in aggregation")) :=
  ⟨_, derive_outOfOrder, rfl, rfl,
    fun h => Bool.noConfusion (h.no_skip (.skip (feelessBlock 3 23 22).withL1Messages)
      (List.mem_cons_of_mem _ List.mem_cons_self)), rfl⟩

end RollupNode
