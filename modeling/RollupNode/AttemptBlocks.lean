import RollupNode.AttemptPlan

set_option autoImplicit false

/-! An attempt only touches blocks whose numbers are those of the batch's attributes. -/
namespace RollupNode

def confirmedHead (fcs : ForkchoiceState) (target : BlockInfo) : Option BlockInfo :=
  if fcs.head.number ≤ target.number ∧ fcs.head ≠ target then some target else none

def finalizedTarget (batch : BatchDerivationResult) (target : BlockInfo) : Option BlockInfo :=
  if batch.targetStatus.isFinalized then some target else none

/-! ### Steps that succeed -/

variable {response : ForkchoiceUpdated} {fcs fcs' : ForkchoiceState} {a : DerivedAttributes}
  {block : L2BlockInfoWithL1Messages} {progress progress' : AttemptProgress} {db db' : Db}
  {o o' : BatchConsolidationOutcome} {batch : BatchDerivationResult}
  {reply : Reply ForkchoiceUpdated} {client : L2Client} {plan : BatchReconciliationResult}
  {target : BlockInfo}

theorem classifyCheckedFcu_eq_ok {batch : BatchInfo} {blockNumber : Option ℕ}
    (h : classifyCheckedFcu response batch blockNumber = .ok ()) :
    response.status = .valid := by
  unfold classifyCheckedFcu at h
  split at h
  · assumption
  · cases h
  · cases h
  · cases h

theorem confirmBlock_eq_ok {head : Option BlockInfo}
    (h : confirmBlock batch fcs head target reply = (fcs', .ok ())) :
    fcs.update head (some target) (finalizedTarget batch target) = .ok fcs' := by
  simp only [confirmBlock] at h
  split at h
  · cases h
  · rename_i response hresponse
    obtain ⟨rfl, hchecked⟩ := Prod.mk.inj h
    exact ForkchoiceState.updateFcsChecked_valid hresponse (classifyCheckedFcu_eq_ok hchecked)

theorem payloadMismatch_eq_none_iff {safe : BlockInfo} {payload : ExecutionPayload} :
    payloadMismatch a safe payload = none ↔
      payload.parentHash = safe.hash ∧ payload.blockNumber = a.blockNumber ∧
        payload.baseFeePerGas = a.baseFee ∧
        a.attributes.transactions = some payload.transactions := by
  unfold payloadMismatch
  by_cases hparent : payload.parentHash = safe.hash
  · by_cases hnumber : payload.blockNumber = a.blockNumber
    · by_cases hfee : payload.baseFeePerGas = a.baseFee
      · simp [hparent, hnumber, hfee]
      · simp [hparent, hnumber, hfee]
    · simp [hparent, hnumber]
  · simp [hparent]

structure Rebuilds (fcs : ForkchoiceState) (a : DerivedAttributes) (replies : ActionReplies)
    (block : L2BlockInfoWithL1Messages) : Prop where
  onSafe : fcs.safe.number = a.blockNumber - 1
  candidate : ∃ new, fcs.update (some fcs.safe) none none = .ok new
  payload : ∃ p, replies.payload = .ok p ∧ payloadMismatch a fcs.safe p = none ∧
    p.l1Messages = some block.l1Messages ∧ block.blockInfo = ⟨p.blockNumber, p.blockHash⟩

theorem Rebuilds.number {replies : ActionReplies} (h : Rebuilds fcs a replies block) :
    block.blockInfo.number = a.blockNumber := by
  obtain ⟨p, -, hmatch, -, hinfo⟩ := h.payload
  rw [hinfo]
  exact (payloadMismatch_eq_none_iff.1 hmatch).2.1

theorem update_of_buildPayload {head : BlockInfo}
    (h : fcs.buildPayload (some head) reply = .ok response) :
    ∃ new, fcs.update (some head) none none = .ok new := by
  unfold ForkchoiceState.buildPayload at h
  cases hnew : fcs.update (some head) none none with
  | error e =>
    simp only [Option.map_some, hnew] at h
    cases h
  | ok new => exact ⟨new, rfl⟩

theorem rebuilds_of_rebuildBlock {batch : BatchInfo} {replies : ActionReplies}
    (h : rebuildBlock batch fcs a replies = .ok block) :
    Rebuilds fcs a replies block := by
  simp only [rebuildBlock, bind, Except.bind, pure, Except.pure] at h
  split at h
  · cases h
  rename_i honsafe
  split at h
  · cases h
  rename_i _ response hbuilt
  split at h
  · cases h
  split at h
  · cases h
  rename_i _ payload hpayload
  split at h
  · cases h
  rename_i hmatch
  split at h
  · cases h
  rename_i _ messages hmessages
  split at h
  · cases h
  split at h
  · cases h
  cases h
  refine ⟨?_, ?_, payload, ?_, hmatch, hmessages, rfl⟩
  · exact not_not.1 honsafe
  · cases hresult : fcs.buildPayload (some fcs.safe) replies.build with
    | error e =>
      rw [hresult] at hbuilt
      cases hbuilt
    | ok response => exact update_of_buildPayload hresult
  · cases hreply : replies.payload with
    | error e =>
      rw [hreply] at hpayload
      cases hpayload
    | ok p =>
      rw [hreply] at hpayload
      cases hpayload
      rfl

theorem performAction_updateFcs_ok {replies : ActionReplies}
    (h : performAction batch fcs progress (.updateFcs block) replies = (fcs', .ok progress')) :
    fcs.update (confirmedHead fcs block.blockInfo) (some block.blockInfo)
        (finalizedTarget batch block.blockInfo) = .ok fcs' ∧
      progress' = { progress with l2HeadUpdated :=
        progress.l2HeadUpdated || (confirmedHead fcs block.blockInfo).isSome } := by
  change ((confirmBlock batch fcs (confirmedHead fcs block.blockInfo) _ _).1,
    (confirmBlock batch fcs (confirmedHead fcs block.blockInfo) _ _).2.map _) = _ at h
  rcases hconfirm : confirmBlock batch fcs (confirmedHead fcs block.blockInfo) block.blockInfo
    replies.fcu with ⟨new, failure | u⟩
  · rw [hconfirm] at h
    cases h
  · rw [hconfirm] at h
    cases h
    exact ⟨confirmBlock_eq_ok hconfirm, rfl⟩

theorem performAction_reorg_ok {index : ℕ} {replies : ActionReplies}
    (h : performAction batch fcs progress (.reorg index) replies = (fcs', .ok progress')) :
    ∃ a block, batch.attributes[index]? = some a ∧
      rebuildBlock batch.batchInfo fcs a replies = .ok block ∧
      fcs.update (some block.blockInfo) (some block.blockInfo)
        (finalizedTarget batch block.blockInfo) = .ok fcs' ∧
      progress' = ⟨progress.reorgResults ++ [block], true⟩ := by
  simp only [performAction] at h
  cases hattributes : batch.attributes[index]? with
  | none =>
    rw [hattributes] at h
    cases h
  | some a =>
    simp only [hattributes] at h
    cases hblock : rebuildBlock batch.batchInfo fcs a replies with
    | error failure =>
      simp only [hblock] at h
      cases h
    | ok block =>
      simp only [hblock] at h
      rcases hconfirm : confirmBlock batch fcs (some block.blockInfo) block.blockInfo
        replies.fcu with ⟨new, failure | u⟩
      · rw [hconfirm] at h
        cases h
      · rw [hconfirm] at h
        cases h
        exact ⟨a, block, rfl, hblock, confirmBlock_eq_ok hconfirm, rfl⟩

variable {replies : ℕ → ActionReplies} {action : BlockConsolidationAction}
  {actions : List BlockConsolidationAction}

theorem performActions_cons_ok
    (h : performActions batch fcs progress (action :: actions) replies = (fcs', .ok progress')) :
    ∃ next made, performAction batch fcs progress action (replies 0) = (next, .ok made) ∧
      performActions batch next made actions (fun i => replies (i + 1)) =
        (fcs', .ok progress') := by
  simp only [performActions] at h
  rcases hfirst : performAction batch fcs progress action (replies 0) with
    ⟨next, failure | made⟩
  · rw [hfirst] at h
    cases h
  · rw [hfirst] at h
    exact ⟨next, made, rfl, h⟩

theorem storeOutcome_eq_ok {skipped : List ℕ} (h : storeOutcome db o skipped = (db', .ok o')) :
    o = o' ∧ db.Accepts { o with skippedL1Messages := skipped } ∧
      db' = db.consolidated { o with skippedL1Messages := skipped } := by
  unfold storeOutcome at h
  split at h
  · rename_i stored hstored
    cases h
    exact ⟨rfl, (db.insertBatchConsolidationOutcome_eq_ok _ _).1 hstored⟩
  · cases h
  · cases h

/-- A completed attempt has planned the batch, performed the actions and stored their outcome. -/
theorem reconcileAndConsolidate_eq_ok {outcome : BatchConsolidationOutcome}
    (h : reconcileAndConsolidate client replies fcs db batch = (fcs', db', .ok outcome)) :
    ∃ plan progress, checkSafeFrontier client fcs db batch.batchInfo = .ok () ∧
      reconcileBatch client batch fcs = .ok plan ∧
      performActions batch fcs ⟨[], false⟩ plan.aggregateActions replies =
        (fcs', .ok progress) ∧
      outcome = plan.intoBatchConsolidationOutcome progress.reorgResults progress.l2HeadUpdated ∧
      storeOutcome db outcome batch.skippedL1Messages = (db', .ok outcome) := by
  unfold reconcileAndConsolidate at h
  split at h
  · cases h
  rename_i u hfrontier
  split at h
  · cases h
  rename_i plan hplan
  split at h
  · cases h
  rename_i fcs₁ progress hperformed
  simp only [Prod.mk.injEq] at h
  obtain ⟨rfl, hdb, hresult⟩ := h
  have hstored : storeOutcome db (plan.intoBatchConsolidationOutcome progress.reorgResults
      progress.l2HeadUpdated) batch.skippedL1Messages = (db', .ok outcome) :=
    Prod.ext hdb hresult
  obtain rfl := (storeOutcome_eq_ok hstored).1
  exact ⟨plan, progress, hfrontier, hplan, hperformed, rfl, hstored⟩

/-! ### The blocks of the outcome -/

def rebuiltAttributes (batch : BatchDerivationResult) :
    List BlockConsolidationAction → List DerivedAttributes
  | [] => []
  | .reorg index :: rest => batch.attributes[index]?.toList ++ rebuiltAttributes batch rest
  | _ :: rest => rebuiltAttributes batch rest

theorem rebuiltAttributes_append (batch : BatchDerivationResult)
    (actions later : List BlockConsolidationAction) :
    rebuiltAttributes batch (actions ++ later) =
      rebuiltAttributes batch actions ++ rebuiltAttributes batch later := by
  induction actions with
  | nil => rfl
  | cons action rest ih =>
    cases action with
    | updateFcs block => exact ih
    | skip block => exact ih
    | reorg index =>
      simp only [List.cons_append, rebuiltAttributes, ih, List.append_assoc]

theorem rebuiltAttributes_range' (batch : BatchDerivationResult) (start count : ℕ)
    (h : start + count = batch.attributes.length) :
    rebuiltAttributes batch ((List.range' start count).map .reorg) =
      batch.attributes.drop start := by
  induction count generalizing start with
  | zero =>
    rw [List.drop_of_length_le (by omega)]
    rfl
  | succ count ih =>
    have hlt : start < batch.attributes.length := by omega
    rw [List.range'_succ, List.map_cons, List.drop_eq_getElem_cons hlt]
    simp only [rebuiltAttributes, ih (start + 1) (by omega), List.getElem?_eq_getElem hlt]
    rfl

theorem rebuiltAttributes_of_no_reorg (batch : BatchDerivationResult)
    {actions : List BlockConsolidationAction} (h : ∀ action ∈ actions, action.isReorg = false) :
    rebuiltAttributes batch actions = [] := by
  induction actions with
  | nil => rfl
  | cons action rest ih =>
    obtain ⟨haction, hrest⟩ := List.forall_mem_cons.1 h
    cases action with
    | updateFcs block => exact ih hrest
    | skip block => exact ih hrest
    | reorg index => cases haction

theorem rebuiltAttributes_aggregateActions (hplan : reconcileBatch client batch fcs = .ok plan) :
    rebuiltAttributes batch plan.aggregateActions =
      batch.attributes.drop (matchedBlocks client batch.attributes).length := by
  obtain ⟨front, hfront, hsplit⟩ := aggregateActions_split hplan
  have hkept : ∀ action ∈ front, action.isReorg = false := by
    intro action haction
    obtain ⟨block, -, rfl⟩ := hfront action haction
    exact keepAction_isReorg _ block
  have hle := matchedBlocks_length_le client batch.attributes
  rw [hsplit, rebuiltAttributes_append, rebuiltAttributes_of_no_reorg batch hkept,
    List.nil_append]
  exact rebuiltAttributes_range' batch _ _ (by omega)

theorem performActions_numbers
    (h : performActions batch fcs progress actions replies = (fcs', .ok progress')) :
    progress'.reorgResults.map (·.blockInfo.number) =
      progress.reorgResults.map (·.blockInfo.number) ++
        (rebuiltAttributes batch actions).map (·.blockNumber) := by
  induction actions generalizing fcs progress replies with
  | nil =>
    cases h
    exact (List.append_nil _).symm
  | cons action rest ih =>
    obtain ⟨next, made, hfirst, hrest⟩ := performActions_cons_ok h
    rw [ih hrest]
    cases action with
    | skip block => cases hfirst
    | updateFcs block =>
      rw [(performAction_updateFcs_ok hfirst).2]
      rfl
    | reorg index =>
      obtain ⟨a, block, ha, hblock, -, rfl⟩ := performAction_reorg_ok hfirst
      simp only [rebuiltAttributes, ha, Option.toList_some, List.map_append, List.map_cons,
        List.map_nil, (rebuilds_of_rebuildBlock hblock).number, List.append_assoc]

def BatchDerivationResult.Covers (batch : BatchDerivationResult) (number : ℕ) : Prop :=
  ∃ a ∈ batch.attributes, a.blockNumber = number

structure OutcomeOf (batch : BatchDerivationResult) (o : BatchConsolidationOutcome) : Prop where
  batchInfo : o.batchInfo = batch.batchInfo
  targetStatus : o.targetStatus = batch.targetStatus
  numbers : o.blocks.map (·.blockInfo.number) = batch.attributes.map (·.blockNumber)

theorem OutcomeOf.within (h : OutcomeOf batch o) (hblock : block ∈ o.blocks) :
    batch.Covers block.blockInfo.number := by
  have hmem : block.blockInfo.number ∈ o.blocks.map (·.blockInfo.number) :=
    List.mem_map.2 ⟨block, hblock, rfl⟩
  rw [h.numbers] at hmem
  exact List.mem_map.1 hmem

theorem OutcomeOf.nonempty (h : OutcomeOf batch o) (hne : batch.attributes ≠ []) :
    o.blocks ≠ [] := by
  intro hnil
  have hnumbers := h.numbers
  rw [hnil] at hnumbers
  exact hne (List.map_eq_nil_iff.1 hnumbers.symm)

theorem outcomeOf_plan (hplan : reconcileBatch client batch fcs = .ok plan)
    (h : performActions batch fcs ⟨[], false⟩ plan.aggregateActions replies =
      (fcs', .ok progress)) :
    OutcomeOf batch
      (plan.intoBatchConsolidationOutcome progress.reorgResults progress.l2HeadUpdated) := by
  have hinfo := reconcileBatch_eq_ok hplan
  refine ⟨congrArg (·.batchInfo) hinfo, congrArg (·.targetStatus) hinfo, ?_⟩
  rw [intoBatchConsolidationOutcome_blocks hplan, List.map_append, performActions_numbers h,
    rebuiltAttributes_aggregateActions hplan, List.map_map]
  change (matchedBlocks client batch.attributes).map L2Block.number ++ _ = _
  rw [matchedBlocks_numbers, List.map_nil, List.nil_append, ← List.map_append,
    List.take_append_drop]

/-- An attempt writes the database when it completes and only then. -/
theorem reconcileAndConsolidate_consolidated {outcome : BatchConsolidationOutcome}
    (h : (reconcileAndConsolidate client replies fcs db batch).2.2 = .ok outcome) :
    ∃ o, OutcomeOf batch o ∧
      (reconcileAndConsolidate client replies fcs db batch).2.1 = db.consolidated o := by
  obtain ⟨plan, progress, -, hplan, hperformed, rfl, hstored⟩ :=
    reconcileAndConsolidate_eq_ok (Prod.ext rfl (Prod.ext rfl h))
  obtain ⟨hinfo, hstatus, hnumbers⟩ := outcomeOf_plan hplan hperformed
  refine ⟨_, ?_, (storeOutcome_eq_ok hstored).2.2⟩
  exact ⟨hinfo, hstatus, hnumbers⟩

theorem storeOutcome_db_of_error {failure : AttemptFailure} {skipped : List ℕ}
    (h : (storeOutcome db o skipped).2 = .error failure) :
    (storeOutcome db o skipped).1 = db := by
  unfold storeOutcome at h ⊢
  cases hstored : db.insertBatchConsolidationOutcome { o with skippedL1Messages := skipped } with
  | ok stored =>
    rw [hstored] at h
    cases h
  | error abort => cases abort <;> rfl

theorem reconcileAndConsolidate_db_of_error {failure : AttemptFailure}
    (h : (reconcileAndConsolidate client replies fcs db batch).2.2 = .error failure) :
    (reconcileAndConsolidate client replies fcs db batch).2.1 = db := by
  unfold reconcileAndConsolidate at h ⊢
  split
  · rfl
  split
  · rfl
  split
  · rfl
  rename_i hcheck _ plan hplan _ fcs' progress hperformed
  simp only [hcheck, hplan, hperformed] at h
  exact storeOutcome_db_of_error h

/-! ### The finalized block -/

def BlockConsolidationAction.Within (batch : BatchDerivationResult)
    (action : BlockConsolidationAction) : Prop :=
  ∀ block, action.intoBlockInfo = some block → batch.Covers block.blockInfo.number

theorem aggregateActions_within (hplan : reconcileBatch client batch fcs = .ok plan) :
    ∀ action ∈ plan.aggregateActions, action.Within batch := by
  intro action haction block hblock
  obtain ⟨front, hfront, hsplit⟩ := aggregateActions_split hplan
  rw [hsplit] at haction
  rcases List.mem_append.1 haction with hkept | hrebuilt
  · obtain ⟨kept, hmem, rfl⟩ := hfront action hkept
    obtain ⟨a, ha, hmatched⟩ := exists_of_mem_matchedBlocks hmem
    rw [keepAction_intoBlockInfo] at hblock
    cases hblock
    exact ⟨a, ha, (matchedBlock_number hmatched).symm⟩
  · obtain ⟨index, -, rfl⟩ := List.mem_map.1 hrebuilt
    cases hblock

def FinalizedWithin (batch : BatchDerivationResult) (fcs fcs' : ForkchoiceState) : Prop :=
  fcs'.finalized = fcs.finalized ∨
    batch.targetStatus.isFinalized = true ∧ batch.Covers fcs'.finalized.number

theorem FinalizedWithin.trans {a b c : ForkchoiceState} (hab : FinalizedWithin batch a b)
    (hbc : FinalizedWithin batch b c) : FinalizedWithin batch a c := by
  rcases hbc with hbc | hbc
  · rcases hab with hab | hab
    · exact Or.inl (hbc.trans hab)
    · rw [← hbc] at hab
      exact Or.inr hab
  · exact Or.inr hbc

theorem confirmBlock_state (batch : BatchDerivationResult) (fcs : ForkchoiceState)
    (head : Option BlockInfo) (target : BlockInfo) (reply : Reply ForkchoiceUpdated) :
    (confirmBlock batch fcs head target reply).1 =
      (fcs.updateFcsChecked head (some target) (finalizedTarget batch target) reply).1 := by
  simp only [confirmBlock, finalizedTarget]
  generalize fcs.updateFcsChecked _ _ _ _ = result
  rcases result with ⟨fcs', e | response⟩ <;> rfl

theorem confirmBlock_finalizedWithin (fcs : ForkchoiceState) (head : Option BlockInfo)
    (reply : Reply ForkchoiceUpdated) (h : batch.Covers target.number) :
    FinalizedWithin batch fcs (confirmBlock batch fcs head target reply).1 := by
  rw [confirmBlock_state]
  rcases fcs.updateFcsChecked_state head (some target)
    (finalizedTarget batch target) reply with hsame | hnew
  · exact Or.inl (congrArg ForkchoiceState.finalized hsame)
  · unfold FinalizedWithin
    rw [(ForkchoiceState.update_eq_ok hnew).1]
    simp only [ForkchoiceState.candidate, finalizedTarget]
    split
    · rename_i hfinal
      exact Or.inr ⟨hfinal, h⟩
    · exact Or.inl rfl

theorem performAction_finalizedWithin (fcs : ForkchoiceState) (progress : AttemptProgress)
    (replies : ActionReplies) (hw : action.Within batch) :
    FinalizedWithin batch fcs (performAction batch fcs progress action replies).1 := by
  cases action with
  | skip block => exact Or.inl rfl
  | updateFcs block => exact confirmBlock_finalizedWithin _ _ _ (hw block rfl)
  | reorg index =>
    simp only [performAction]
    split
    · exact Or.inl rfl
    · rename_i a ha
      split
      · exact Or.inl rfl
      · rename_i block hblock
        refine confirmBlock_finalizedWithin _ _ _ ⟨a, List.mem_of_getElem? ha, ?_⟩
        exact (rebuilds_of_rebuildBlock hblock).number.symm

theorem performActions_finalizedWithin (actions : List BlockConsolidationAction)
    (fcs : ForkchoiceState) (progress : AttemptProgress) (replies : ℕ → ActionReplies)
    (hw : ∀ action ∈ actions, action.Within batch) :
    FinalizedWithin batch fcs (performActions batch fcs progress actions replies).1 := by
  induction actions generalizing fcs progress replies with
  | nil => exact Or.inl rfl
  | cons action actions ih =>
    obtain ⟨haction, hrest⟩ := List.forall_mem_cons.1 hw
    have hfirst := performAction_finalizedWithin fcs progress (replies 0) haction
    simp only [performActions]
    split
    · rename_i fcs' failure hperformed
      rw [hperformed] at hfirst
      exact hfirst
    · rename_i fcs' made hperformed
      rw [hperformed] at hfirst
      exact hfirst.trans (ih fcs' made _ hrest)

/-- An attempt only moves the finalized block within a batch that is to be final. -/
theorem reconcileAndConsolidate_finalizedWithin (client : L2Client) (replies : ℕ → ActionReplies)
    (fcs : ForkchoiceState) (db : Db) (batch : BatchDerivationResult) :
    FinalizedWithin batch fcs (reconcileAndConsolidate client replies fcs db batch).1 := by
  unfold reconcileAndConsolidate
  split
  · exact Or.inl rfl
  split
  · exact Or.inl rfl
  rename_i plan hplan
  have hperformed := performActions_finalizedWithin plan.aggregateActions fcs ⟨[], false⟩ replies
    (aggregateActions_within hplan)
  split
  · rename_i h
    rw [h] at hperformed
    exact hperformed
  · rename_i h
    rw [h] at hperformed
    exact hperformed

end RollupNode
