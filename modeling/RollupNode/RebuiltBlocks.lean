import RollupNode.AttemptGuarantees

set_option autoImplicit false

/-! A rebuilt block against the attributes it was rebuilt from. -/
namespace RollupNode
open ExceptTraversal

/-- A payload of the Engine with the header fields that its check does not look at. -/
structure EnginePayload extends ExecutionPayload where
  feeRecipient : BitVec 160
  stateRoot : B256
  prevRandao : B256
  gasLimit : ℕ
  timestamp : ℕ
  extraData : Bytes
  deriving DecidableEq, Repr

def EnginePayload.block (p : EnginePayload) : L2Block where
  number := p.blockNumber
  hash := p.blockHash
  parentHash := p.parentHash
  timestamp := p.timestamp
  baseFeePerGas := some p.baseFeePerGas
  gasLimit := p.gasLimit
  mixHash := some p.prevRandao
  extraData := p.extraData
  stateRoot := p.stateRoot
  beneficiary := p.feeRecipient
  nonce := some 0
  transactions := p.transactions
  l1Messages := p.l1Messages.getD []

/-- The fields that only the comparison of a served block looks at. -/
def EnginePayload.AgreesWith (p : EnginePayload) (attributes : PayloadAttributes) : Prop :=
  attributes.gasLimit.all (· = p.gasLimit) ∧
  p.timestamp = attributes.timestamp ∧
  p.prevRandao = attributes.prevRandao ∧
  attributes.blockDataHint.extraData.all (· = p.extraData) ∧
  attributes.blockDataHint.stateRoot.all (· = p.stateRoot) ∧
  attributes.blockDataHint.coinbase.all (· = p.feeRecipient) ∧
  attributes.blockDataHint.nonce.getD 0 = 0

instance (p : EnginePayload) (attributes : PayloadAttributes) :
    Decidable (p.AgreesWith attributes) := by
  unfold EnginePayload.AgreesWith
  infer_instance

def EnginePayload.Accepted (p : EnginePayload) (a : DerivedAttributes) : Prop :=
  ∃ safe, payloadMismatch a safe p.toExecutionPayload = none

variable {a : DerivedAttributes} {p : EnginePayload} {client : L2Client} {fcs : ForkchoiceState}
  {batch : BatchDerivationResult} {plan : BatchReconciliationResult}
  {attributes : List DerivedAttributes}

theorem EnginePayload.Accepted.number (h : p.Accepted a) : p.block.number = a.blockNumber := by
  obtain ⟨safe, hsafe⟩ := h
  exact (payloadMismatch_eq_none_iff.1 hsafe).2.1

theorem EnginePayload.Accepted.block_matches_iff (h : p.Accepted a) :
    blockMatchesAttributes a.attributes a.baseFee p.block = true ↔ p.AgreesWith a.attributes := by
  obtain ⟨safe, hsafe⟩ := h
  obtain ⟨-, -, hfee, htransactions⟩ := payloadMismatch_eq_none_iff.1 hsafe
  simp only [blockMatchesAttributes, EnginePayload.block, EnginePayload.AgreesWith, hfee,
    htransactions, Option.getD_some, decide_eq_true_eq, true_and]

structure EngineReplies where
  build : Reply ForkchoiceUpdated
  payload : Reply EnginePayload
  newPayload : Reply PayloadStatus
  fcu : Reply ForkchoiceUpdated

def EngineReplies.action (r : EngineReplies) : ActionReplies :=
  ⟨r.build, r.payload.map EnginePayload.toExecutionPayload, r.newPayload, r.fcu⟩

def rebuiltPayloads :
    List BlockConsolidationAction → (ℕ → EngineReplies) → List EnginePayload
  | [], _ => []
  | .reorg _ :: rest, replies =>
    (replies 0).payload.toOption.toList ++ rebuiltPayloads rest (fun i => replies (i + 1))
  | _ :: rest, replies => rebuiltPayloads rest (fun i => replies (i + 1))

/-- The client once the blocks are its newest: what was at their heights and above is gone. -/
def L2Client.withRebuilt (client : L2Client) (blocks : List L2Block) : L2Client where
  blockByNumber n :=
    match blocks.find? (fun b => b.number = n) with
    | some block => .ok (some block)
    | none => if blocks.any (fun b => b.number ≤ n) then .ok none else client.blockByNumber n
  number_eq := by
    intro n b h
    split at h
    · rename_i block hfound
      cases h
      have hnumber := List.find?_some hfound
      exact of_decide_eq_true hnumber
    · split at h
      · cases h
      · exact client.number_eq n b h

theorem L2Client.withRebuilt_ok {n : ℕ} {found : Option L2Block}
    (h : client.blockByNumber n = .ok found) (blocks : List L2Block) :
    ∃ found', (client.withRebuilt blocks).blockByNumber n = .ok found' := by
  simp only [L2Client.withRebuilt]
  split
  · exact ⟨_, rfl⟩
  · split
    · exact ⟨_, rfl⟩
    · exact ⟨found, h⟩

theorem L2Client.withRebuilt_below (client : L2Client) {blocks : List L2Block} {n : ℕ}
    (h : ∀ b ∈ blocks, n < b.number) :
    (client.withRebuilt blocks).blockByNumber n = client.blockByNumber n := by
  have hnone : blocks.find? (fun b => b.number = n) = none := by
    rw [List.find?_eq_none]
    intro b hb
    have hlt := h b hb
    simp only [decide_eq_true_eq]
    omega
  have hany : ¬ (blocks.any (fun b => b.number ≤ n) = true) := by
    rw [List.any_eq_true]
    rintro ⟨b, hb, hle⟩
    have hlt := h b hb
    have hle' := of_decide_eq_true hle
    omega
  simp only [L2Client.withRebuilt, hnone]
  rw [if_neg hany]

theorem L2Client.withRebuilt_mem (client : L2Client) {blocks : List L2Block} {block : L2Block}
    (hunique : (blocks.map L2Block.number).Nodup) (h : block ∈ blocks) :
    (client.withRebuilt blocks).blockByNumber block.number = .ok (some block) := by
  have hfound : blocks.find? (fun b => b.number = block.number) = some block := by
    induction blocks with
    | nil => cases h
    | cons first rest ih =>
      rw [List.map_cons, List.nodup_cons] at hunique
      rcases List.mem_cons.1 h with rfl | h
      · rw [List.find?_cons_of_pos (by simp)]
      · have hne : first.number ≠ block.number := by
          intro heq
          exact hunique.1 (List.mem_map.2 ⟨block, h, heq.symm⟩)
        rw [List.find?_cons_of_neg (by simpa using hne)]
        exact ih hunique.2 h
  simp only [L2Client.withRebuilt, hfound]

theorem rebuildBlock_accepted {batch : BatchInfo} {replies : EngineReplies}
    {block : L2BlockInfoWithL1Messages} (h : rebuildBlock batch fcs a replies.action = .ok block) :
    ∃ p, replies.payload = .ok p ∧ p.Accepted a := by
  obtain ⟨payload, hpayload, hmatch, -, -⟩ := (rebuilds_of_rebuildBlock h).payload
  cases hreply : replies.payload with
  | error e =>
    simp only [EngineReplies.action, hreply] at hpayload
    cases hpayload
  | ok p =>
    simp only [EngineReplies.action, hreply] at hpayload
    cases hpayload
    exact ⟨p, rfl, fcs.safe, hmatch⟩

variable {replies : ℕ → EngineReplies} {fcs' : ForkchoiceState} {progress : AttemptProgress}

theorem performActions_accepted {progress' : AttemptProgress}
    {actions : List BlockConsolidationAction}
    (h : performActions batch fcs progress actions (fun i => (replies i).action) =
      (fcs', .ok progress')) :
    List.Forall₂ (fun a p => EnginePayload.Accepted p a) (rebuiltAttributes batch actions)
      (rebuiltPayloads actions replies) := by
  induction actions generalizing fcs progress replies with
  | nil => exact List.Forall₂.nil
  | cons action rest ih =>
    obtain ⟨next, made, hfirst, hrest⟩ := performActions_cons_ok h
    have hlater : List.Forall₂ (fun a p => EnginePayload.Accepted p a)
        (rebuiltAttributes batch rest) (rebuiltPayloads rest (fun i => replies (i + 1))) :=
      ih hrest
    cases action with
    | updateFcs block => exact hlater
    | skip block => exact hlater
    | reorg index =>
      obtain ⟨a, block, hattributes, hblock, -, -⟩ := performAction_reorg_ok hfirst
      obtain ⟨p, hpayload, haccepted⟩ := rebuildBlock_accepted hblock
      simp only [rebuiltAttributes, rebuiltPayloads, hattributes, hpayload]
      exact List.Forall₂.cons haccepted hlater

/-! ### The heights of rebuilt blocks -/

theorem performActions_append_ok {progress' : AttemptProgress}
    {front back : List BlockConsolidationAction} {replies : ℕ → ActionReplies}
    (h : performActions batch fcs progress (front ++ back) replies = (fcs', .ok progress')) :
    ∃ mid made, performActions batch mid made back (fun i => replies (i + front.length)) =
      (fcs', .ok progress') := by
  induction front generalizing fcs progress replies with
  | nil => exact ⟨fcs, progress, h⟩
  | cons action front ih =>
    obtain ⟨next, made, -, hrest⟩ := performActions_cons_ok h
    obtain ⟨mid, made', hback⟩ := ih hrest
    exact ⟨mid, made', hback⟩

/-- No kept block stands at or above the first one that is rebuilt, and no later one is at the
height of genesis. -/
def BatchDerivationResult.RebuildsAbove (batch : BatchDerivationResult) (client : L2Client) : Prop :=
  let kept := (matchedBlocks client batch.attributes).length
  (∀ first ∈ (batch.attributes.drop kept).head?, ∀ a ∈ batch.attributes.take kept,
    a.blockNumber < first.blockNumber) ∧
    ∀ later ∈ (batch.attributes.drop kept).tail, 0 < later.blockNumber

theorem BatchDerivationResult.RebuildsAbove.ascending (habove : batch.RebuildsAbove client)
    (hplan : reconcileBatch client batch fcs = .ok plan) {progress' : AttemptProgress}
    {replies : ℕ → ActionReplies} (hdone : performActions batch fcs progress plan.aggregateActions
      replies = (fcs', .ok progress')) :
    (batch.attributes.drop (matchedBlocks client batch.attributes).length).Pairwise
      (fun a b => a.blockNumber < b.blockNumber) := by
  obtain ⟨front, -, hsplit⟩ := aggregateActions_split hplan
  rw [hsplit, ← List.length_drop] at hdone
  obtain ⟨mid, made, hback⟩ := performActions_append_ok hdone
  obtain ⟨blocks, -, -, hbuilt⟩ := performActions_reorgs_ok client _ rfl hback
  -- a block is rebuilt on the safe one and is the safe one then: heights go up one by one
  have hchain : ((batch.attributes.drop (matchedBlocks client batch.attributes).length).map
      (·.blockNumber)).IsChain (fun m n => m = n - 1) := by
    rw [← hbuilt.numbers, List.isChain_map]
    exact hbuilt.linked.imp (fun _ _ hstep => hstep.2)
  rw [List.isChain_map] at hchain
  refine List.IsChain.pairwise (hchain.imp_of_mem_tail_imp ?_)
  intro a b _ hb hab
  have hpositive := habove.2 b hb
  omega

/-- The heights of kept blocks are below those of rebuilt ones. -/
theorem BatchDerivationResult.RebuildsAbove.below (habove : batch.RebuildsAbove client)
    (hascending : (batch.attributes.drop (matchedBlocks client batch.attributes).length).Pairwise
      (fun a b => a.blockNumber < b.blockNumber)) {a b : DerivedAttributes}
    (ha : a ∈ batch.attributes.take (matchedBlocks client batch.attributes).length)
    (hb : b ∈ batch.attributes.drop (matchedBlocks client batch.attributes).length) :
    a.blockNumber < b.blockNumber := by
  have hfirst := habove.1
  cases hrebuilt : batch.attributes.drop (matchedBlocks client batch.attributes).length with
  | nil =>
    rw [hrebuilt] at hb
    cases hb
  | cons first later =>
    rw [hrebuilt] at hb hascending hfirst
    have hlt := hfirst first rfl a ha
    rcases List.mem_cons.1 hb with rfl | hb
    · exact hlt
    · exact hlt.trans (List.rel_of_pairwise_cons hascending hb)

/-- A plan rebuilds nothing exactly when every attribute matches a block. -/
theorem reconcileBatch_no_reorg_iff (h : reconcileBatch client batch fcs = .ok plan) :
    (∀ action ∈ plan.actions, action.isReorg = false) ↔
      ∀ a ∈ batch.attributes, (matchedBlock client a).isSome := by
  rw [← matchedBlocks_length_eq_iff, reconcileBatch_actions h]
  have hle := matchedBlocks_length_le client batch.attributes
  constructor
  · intro hnone
    by_contra hne
    have hmem : BlockConsolidationAction.reorg (matchedBlocks client batch.attributes).length ∈
        plannedActions client fcs.finalized.number 0 batch.attributes := by
      refine List.mem_append_right _ (List.mem_map.2 ⟨_, ?_, rfl⟩)
      rw [List.mem_range'_1]
      omega
    cases hnone _ hmem
  · intro hlength action haction
    simp only [plannedActions, hlength, Nat.sub_self, List.range'_zero, List.map_nil,
      List.append_nil] at haction
    obtain ⟨block, -, rfl⟩ := List.mem_map.1 haction
    exact keepAction_isReorg _ block

theorem reconcileBatch_withRebuilt_ok (h : reconcileBatch client batch fcs = .ok plan)
    (blocks : List L2Block) (fcs' : ForkchoiceState) :
    ∃ plan', reconcileBatch (client.withRebuilt blocks) batch fcs' = .ok plan' := by
  unfold reconcileBatch at h
  obtain ⟨actions, hactions, -⟩ := bind_eq_ok.1 h
  have hagain : ∀ pair ∈ batch.attributes.zipIdx, ∃ action, consolidationAction
      (client.withRebuilt blocks) fcs'.finalized.number pair.2 pair.1 = .ok action := by
    rintro ⟨a, i⟩ hpair
    obtain ⟨action, haction⟩ := forall_ok_of_mapM hactions (a, i) hpair
    simp only [consolidationAction] at haction ⊢
    obtain ⟨found, hfound, -⟩ := bind_eq_ok.1 haction
    obtain ⟨found', hfound'⟩ := L2Client.withRebuilt_ok hfound blocks
    rw [hfound']
    cases found' with
    | none => exact ⟨_, rfl⟩
    | some block =>
      simp only [bind, Except.bind]
      split
      · split <;> exact ⟨_, rfl⟩
      · exact ⟨_, rfl⟩
  obtain ⟨actions', hactions'⟩ := mapM_ok_of_forall hagain
  exact ⟨⟨batch.batchInfo, rebuildSuffix actions', batch.targetStatus⟩,
    bind_eq_ok.2 ⟨actions', hactions', rfl⟩⟩

theorem matchedBlock_of_rebuilt_iff (haccepted : p.Accepted a)
    (hserved : client.blockByNumber a.blockNumber = .ok (some p.block)) :
    (matchedBlock client a).isSome ↔ p.AgreesWith a.attributes := by
  rw [← haccepted.block_matches_iff]
  simp only [matchedBlock, hserved]
  cases blockMatchesAttributes a.attributes a.baseFee p.block <;> simp

theorem forall_matched_iff {payloads : List EnginePayload}
    (haccepted : List.Forall₂ (fun a p => EnginePayload.Accepted p a) attributes payloads)
    (hserved : ∀ p ∈ payloads, client.blockByNumber p.block.number = .ok (some p.block)) :
    (∀ a ∈ attributes, (matchedBlock client a).isSome) ↔
      List.Forall₂ (fun a p => EnginePayload.AgreesWith p a.attributes) attributes payloads := by
  induction haccepted with
  | nil => simp
  | @cons a p attributes payloads hfirst _ ih =>
    rw [List.forall_mem_cons] at hserved ⊢
    have hblock := hserved.1
    rw [hfirst.number] at hblock
    rw [List.forall₂_cons, matchedBlock_of_rebuilt_iff hfirst hblock, ih hserved.2]

theorem numbers_of_accepted {payloads : List EnginePayload}
    (h : List.Forall₂ (fun a p => EnginePayload.Accepted p a) attributes payloads) :
    (payloads.map EnginePayload.block).map L2Block.number =
      attributes.map DerivedAttributes.blockNumber := by
  induction h with
  | nil => rfl
  | cons hfirst _ ih => simp only [List.map_cons, hfirst.number, ih]

theorem matchedBlock_isSome_of_mem_take
    (h : a ∈ attributes.take (matchedBlocks client attributes).length) :
    (matchedBlock client a).isSome := by
  obtain ⟨i, hi, rfl⟩ := List.mem_iff_getElem.1 h
  have hlt : i < (matchedBlocks client attributes).length := by
    rw [List.length_take] at hi
    omega
  obtain ⟨a', ha', hmatched⟩ := matchedBlocks_get (List.getElem?_eq_getElem hlt)
  rw [List.getElem_take]
  obtain ⟨_, heq⟩ := List.getElem?_eq_some_iff.1 ha'
  rw [heq, hmatched]
  rfl

theorem forall_withRebuilt_matched_iff {payloads : List EnginePayload}
    (habove : batch.RebuildsAbove client)
    (hascending : (batch.attributes.drop (matchedBlocks client batch.attributes).length).Pairwise
      (fun a b => a.blockNumber < b.blockNumber))
    (haccepted : List.Forall₂ (fun a p => EnginePayload.Accepted p a)
      (batch.attributes.drop (matchedBlocks client batch.attributes).length) payloads) :
    (∀ a ∈ batch.attributes,
        (matchedBlock (client.withRebuilt (payloads.map EnginePayload.block)) a).isSome) ↔
      List.Forall₂ (fun a p => EnginePayload.AgreesWith p a.attributes)
        (batch.attributes.drop (matchedBlocks client batch.attributes).length) payloads := by
  have hsplit := List.take_append_drop (matchedBlocks client batch.attributes).length
    batch.attributes
  have hbelow : ∀ a ∈ batch.attributes.take (matchedBlocks client batch.attributes).length,
      ∀ b ∈ payloads.map EnginePayload.block, a.blockNumber < b.number := by
    intro a ha b hb
    have hnumber : b.number ∈ (payloads.map EnginePayload.block).map L2Block.number :=
      List.mem_map.2 ⟨b, hb, rfl⟩
    rw [numbers_of_accepted haccepted] at hnumber
    obtain ⟨later, hlater, heq⟩ := List.mem_map.1 hnumber
    rw [← heq]
    exact habove.below hascending ha hlater
  have hkept : ∀ a ∈ batch.attributes.take (matchedBlocks client batch.attributes).length,
      (matchedBlock (client.withRebuilt (payloads.map EnginePayload.block)) a).isSome := by
    intro a ha
    have hsame := client.withRebuilt_below (hbelow a ha)
    have hmatched := matchedBlock_isSome_of_mem_take ha
    simp only [matchedBlock, hsame] at hmatched ⊢
    exact hmatched
  have hunique : ((payloads.map EnginePayload.block).map L2Block.number).Nodup := by
    rw [numbers_of_accepted haccepted]
    exact List.pairwise_map.2 (hascending.imp (fun hlt => Nat.ne_of_lt hlt))
  have hserved : ∀ p ∈ payloads, (client.withRebuilt
      (payloads.map EnginePayload.block)).blockByNumber p.block.number = .ok (some p.block) := by
    intro p hp
    exact client.withRebuilt_mem hunique (List.mem_map.2 ⟨p, hp, rfl⟩)
  rw [← forall_matched_iff haccepted hserved]
  constructor
  · intro hall a ha
    exact hall a (List.mem_of_mem_drop ha)
  · intro hdropped a ha
    rw [← hsplit] at ha
    rcases List.mem_append.1 ha with ha | ha
    · exact hkept a ha
    · exact hdropped a ha

/-- An accepted payload gives a block that matches the attributes exactly when it agrees with them
on the unchecked fields, and so for the next plan of a batch that is rebuilt above what it keeps. -/
theorem rebuilt_block_matches_iff (client : L2Client) (batch : BatchDerivationResult)
    (fcs : ForkchoiceState) (replies : ℕ → EngineReplies) :
    (∀ (a : DerivedAttributes) (safe : BlockInfo) (p : EnginePayload),
      payloadMismatch a safe p.toExecutionPayload = none →
        (blockMatchesAttributes a.attributes a.baseFee p.block = true ↔
          p.AgreesWith a.attributes)) ∧
    (∀ (fcs' : ForkchoiceState) (plan : BatchReconciliationResult) (progress : AttemptProgress),
      batch.RebuildsAbove client → reconcileBatch client batch fcs = .ok plan →
      performActions batch fcs ⟨[], false⟩ plan.aggregateActions (fun i => (replies i).action) =
        (fcs', .ok progress) →
      ∃ plan', reconcileBatch (client.withRebuilt
          ((rebuiltPayloads plan.aggregateActions replies).map EnginePayload.block)) batch fcs' =
            .ok plan' ∧
        ((∀ action ∈ plan'.actions, action.isReorg = false) ↔
          List.Forall₂ (fun a p => EnginePayload.AgreesWith p a.attributes)
            (rebuiltAttributes batch plan.aggregateActions)
            (rebuiltPayloads plan.aggregateActions replies))) := by
  constructor
  · intro a safe p haccepted
    exact EnginePayload.Accepted.block_matches_iff ⟨safe, haccepted⟩
  · intro fcs' plan progress habove hplan hdone
    have haccepted := performActions_accepted hdone
    rw [rebuiltAttributes_aggregateActions hplan] at haccepted ⊢
    obtain ⟨plan', hplan'⟩ := reconcileBatch_withRebuilt_ok hplan
      ((rebuiltPayloads plan.aggregateActions replies).map EnginePayload.block) fcs'
    refine ⟨plan', hplan', ?_⟩
    rw [reconcileBatch_no_reorg_iff hplan']
    exact forall_withRebuilt_matched_iff habove (habove.ascending hplan hdone) haccepted

def limitedAttributes (number gasLimit : ℕ) : DerivedAttributes :=
  ⟨number, 1, ⟨0, 0, some [], some gasLimit, ⟨none, none, none, none, none⟩⟩⟩

def limitedPayload (parentHash : B256) (number : ℕ) (hash : B256) (gasLimit : ℕ) :
    EnginePayload :=
  ⟨⟨parentHash, number, hash, 1, [], some []⟩, 0, 0, 0, gasLimit, 0, []⟩

def limitedReplies (payload : EnginePayload) : EngineReplies :=
  ⟨.ok ⟨⟨.valid, none⟩, some 0⟩, .ok payload, .ok ⟨.valid, none⟩, validReply⟩

theorem rebuilt_block_matches_iff_sameLimit :
    (payloadMismatch (limitedAttributes 1 30) ⟨0, 7⟩
        (limitedPayload 7 1 21 30).toExecutionPayload = none ∧
      blockMatchesAttributes (limitedAttributes 1 30).attributes (limitedAttributes 1 30).baseFee
        (limitedPayload 7 1 21 30).block = true) ∧
    ∃ plan', reconcileBatch ((L2Client.ofChain [emptyBlock 0 7 0]).withRebuilt
        [(limitedPayload 7 1 21 30).block]) ⟨[limitedAttributes 1 30], ⟨1, 11⟩, [], .consolidated⟩
          ⟨⟨1, 21⟩, ⟨1, 21⟩, ⟨0, 7⟩⟩ = .ok plan' ∧
      ∀ action ∈ plan'.actions, action.isReorg = false := by
  have hsame := rebuilt_block_matches_iff (.ofChain [emptyBlock 0 7 0])
    ⟨[limitedAttributes 1 30], ⟨1, 11⟩, [], .consolidated⟩ ⟨⟨0, 7⟩, ⟨0, 7⟩, ⟨0, 7⟩⟩
    (fun _ => limitedReplies (limitedPayload 7 1 21 30))
  constructor
  · refine ⟨by decide, (hsame.1 _ ⟨0, 7⟩ _ (by decide)).2 (by decide)⟩
  · have habove : BatchDerivationResult.RebuildsAbove
        ⟨[limitedAttributes 1 30], ⟨1, 11⟩, [], .consolidated⟩ (.ofChain [emptyBlock 0 7 0]) :=
      ⟨fun _ _ a ha => (by cases ha), fun later hlater => (by cases hlater)⟩
    obtain ⟨plan', hplan', hiff⟩ := hsame.2 _ _ _ habove rfl rfl
    exact ⟨plan', hplan', hiff.2 (List.Forall₂.cons (by decide) List.Forall₂.nil)⟩

/-- The Engine answers with another gas limit: the payload is accepted and imported as the safe
block, and the next reconciliation of the batch rebuilds it again. -/
theorem rebuilt_block_other_gasLimit :
    ∃ (a : DerivedAttributes) (p : EnginePayload) (client : L2Client)
      (batch : BatchDerivationResult) (fcs fcs' : ForkchoiceState)
      (plan plan' : BatchReconciliationResult) (progress : AttemptProgress),
      batch.attributes = [a] ∧
      reconcileBatch client batch fcs = .ok plan ∧
      performActions batch fcs ⟨[], false⟩ plan.aggregateActions
        (fun _ => (limitedReplies p).action) = (fcs', .ok progress) ∧
      payloadMismatch a fcs.safe p.toExecutionPayload = none ∧
      blockMatchesAttributes a.attributes a.baseFee p.block = false ∧
      fcs'.safe = p.block.blockInfo ∧
      reconcileBatch (client.withRebuilt [p.block]) batch fcs' = .ok plan' ∧
      plan'.actions = [.reorg 0] :=
  ⟨limitedAttributes 1 30, limitedPayload 7 1 21 20, .ofChain [emptyBlock 0 7 0],
    ⟨[limitedAttributes 1 30], ⟨1, 11⟩, [], .consolidated⟩, ⟨⟨0, 7⟩, ⟨0, 7⟩, ⟨0, 7⟩⟩, _, _, _, _,
    rfl, rfl, rfl, by decide, by decide, rfl, rfl, rfl⟩

end RollupNode
