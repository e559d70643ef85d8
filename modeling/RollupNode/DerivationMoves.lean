import RollupNode.DerivationState
import RollupNode.UnwindForkchoice

set_option autoImplicit false

/-! What one turn of the run loop can do to the derivation of batches, said once for every
branch. -/
namespace RollupNode
open RelationalTable ExceptTraversal

namespace Turn

def consolidation (config : ChainOrchestratorConfig) (node : Node) (t : Turn) :
    Option Consolidation :=
  match t.branch with
  | .newBlock received => peerConsolidation config node t.faults received
  | .command (.importBlock block client replies) =>
    importConsolidation node client t.faults [block] replies
  | .notification .synced client _ _ => syncedConsolidation node client t.faults
  | .notification (.l1Message message blockInfo _) _ _ (some received) =>
    match Faulty.handleL1Message node config t.faults message blockInfo with
    | (stored, .ok _) => peerConsolidation config stored (fun i => t.faults (i + 2)) received
    | _ => none
  | _ => none

def isRevert (t : Turn) : Bool :=
  match t.branch with
  | .command (.revertToL1Block _ _) => true
  | _ => false

end Turn

namespace Node

def Idle (node : Node) : Prop := node.pipeline = [] ∧ node.held = none

def AcceptsFinalized (fcs : ForkchoiceState) (block : BlockInfo) (reply : Reply ForkchoiceUpdated) :
    Prop :=
  (block.number ≤ fcs.finalized.number → block = fcs.finalized) ∧
    fcs.safe.number ≤ fcs.head.number ∧ block.number ≤ fcs.safe.number ∧ reply.isOk = true

def FinalizationFails (node : Node) (n : ℕ) (reply : Reply ForkchoiceUpdated) : Prop :=
  ∃ batch block, node.db.highestToFinalize n = some batch ∧
    node.db.lastBlockOf batch.hash = some block ∧
    ¬AcceptsFinalized node.fcs block.blockInfo reply

def afterRevert (node : Node) (db : Db) (n : ℕ) : DerivationState :=
  let checked := revalidateHeld db n node.held
  let flags : SyncState := { node.syncState with l1 := false }
  match checked.2 with
  | .noHeldBatch => ⟨checked.1.batchCommits, flags, node.pipeline, node.held, false⟩
  | .invalidated _ _ => ⟨checked.1.batchCommits, flags, node.pipeline, none, false⟩
  | .survived _ => ⟨checked.1.batchCommits, flags, node.pipeline, node.held, true⟩

end Node

/-- What a turn that does not stop the loop does to the derivation. -/
inductive Moves (config : ChainOrchestratorConfig) (node : Node) (t : Turn) :
    DerivationState → Prop where
  | syncs {s : DerivationState} (hrevert : t.isRevert = false)
      (h : SyncMoves node.derivation (t.consolidation config node) s) : Moves config node t s
  | completes (client : L2Client) (replies : ℕ → ActionReplies) (batch : BatchDerivationResult)
      (hbranch : t.branch = .attempt client replies) (hheld : node.held = some batch)
      (outcome : BatchConsolidationOutcome)
      (hdone : (Faulty.runAttempt node t.faults client replies).2 = .ok (.completed outcome)) :
      Moves config node t { node.derivation with
        batches := (node.db.updateBatchStatus batch.batchInfo.hash batch.targetStatus).batchCommits
        held := none
        attemptScheduled := false }
  | holds (batch : BatchDerivationResult) (request : BatchRequest) (rest : List BatchRequest)
      (hbranch : t.branch = .derivedBatch batch) (hheld : node.held = none)
      (hpipeline : node.pipeline = request :: rest)
      (hindex : request.batchInfo.index = batch.batchInfo.index)
      (htarget : request.targetStatus = batch.targetStatus) :
      Moves config node t { node.derivation with
        pipeline := rest
        held := some batch
        attemptScheduled := true }
  | commits (blockInfo : BlockInfo) (batch : BatchCommitData) (client : L2Client)
      (reply : Reply ForkchoiceUpdated) (retried : Option PeerImport)
      (hbranch : t.branch = .notification (.batchCommit blockInfo batch) client reply retried)
      (hidle : node.Idle) :
      Moves config node t { node.derivation with
        batches := (node.db.insertBatch batch).batchCommits
        pipeline := if node.syncState.isSynced then [⟨batch.batchInfo, .consolidated⟩] else [] }
  | reverts (first last : ℕ) (blockInfo : BlockInfo) (hrevert : t.isRevert = false)
      (hidle : node.Idle) :
      Moves config node t { node.derivation with
        batches :=
          (node.db.setBatchRevertBlockNumberForBatchRange first last blockInfo).batchCommits }
  | finalizes (n : ℕ) (hrevert : t.isRevert = false) (hidle : node.Idle) :
      Moves config node t (DerivationState.fetch { node.derivation with
        batches := (node.db.withFinalized n).batchCommits } (Db.finalizedWithStatus .committed n)
          .finalized)
  | losesFinalized (n : ℕ) (client : L2Client) (reply : Reply ForkchoiceUpdated)
      (retried : Option PeerImport)
      (hbranch : t.branch = .notification (.finalized n) client reply retried) (hidle : node.Idle)
      (hfails : node.FinalizationFails n reply) :
      Moves config node t { node.derivation with
        batches := (DerivationState.fetch { node.derivation with
          batches := (node.db.withFinalized n).batchCommits } (Db.finalizedWithStatus .committed n)
            .finalized).batches }
  | recordsFinalization (index n : ℕ) (hrevert : t.isRevert = false) (hidle : node.Idle) :
      Moves config node t { node.derivation with
        batches := (node.db.finalizeBatchesUpToIndex index n).batchCommits }
  | finalizesBatch (index n m : ℕ) (hrevert : t.isRevert = false) (hidle : node.Idle) :
      Moves config node t (DerivationState.fetch { node.derivation with
        batches := (node.db.finalizeBatchesUpToIndex index n).batchCommits }
          (Db.finalizedWithStatus .committed m) .finalized)
  | cancels (hrevert : t.isRevert = false) (hidle : node.Idle) :
      Moves config node t { node.derivation with attemptScheduled := false }
  | unwinds (n : ℕ) (client : L2Client) (reply : Reply ForkchoiceUpdated)
      (retried : Option PeerImport)
      (hbranch : t.branch = .notification (.reorg n) client reply retried) (hidle : node.Idle) :
      Moves config node t { node.derivation with
        batches := (node.db.withoutAbove n).batchCommits
        attemptScheduled := false }
  | failsToRevert (hheld : node.held = none) (hrevert : t.isRevert = true) :
      Moves config node t { node.derivation with
        syncState := { node.syncState with l1 := false }
        attemptScheduled := false }
  | revertsTo (n : ℕ) (reply : Reply ForkchoiceUpdated) (db : Db) (unwound : UnwindResult)
      (hbranch : t.branch = .command (.revertToL1Block n reply))
      (hunwind : node.db.unwind n = .ok (db, unwound)) :
      Moves config node t (node.afterRevert db n)

/-! ### Every turn makes one of these moves -/
section
variable {config : ChainOrchestratorConfig} {node : Node} {t : Turn}

theorem Moves.keeps (hrevert : t.isRevert = false) {s : DerivationState}
    (h : s = node.derivation) : Moves config node t s :=
  .syncs hrevert (h ▸ .keeps)

/-- An attempt completes and frees the slot, is held and scheduled again, or fails. -/
theorem Node.runAttempt_cases (node : Node) (client : L2Client) (replies : ℕ → ActionReplies) :
    (∃ batch outcome, node.held = some batch ∧
      (node.runAttempt client replies).2 = .ok (.completed outcome) ∧
      (node.runAttempt client replies).1.derivation = { node.derivation with
        batches := (node.db.updateBatchStatus batch.batchInfo.hash batch.targetStatus).batchCommits
        held := none
        attemptScheduled := false }) ∨
      ((node.runAttempt client replies).2 = .ok .held ∧
        (node.runAttempt client replies).1.derivation =
          { node.derivation with attemptScheduled := true }) ∨
      (node.runAttempt client replies).2.isOk = false := by
  unfold Node.runAttempt
  split
  · exact Or.inr (Or.inr rfl)
  rename_i batch hheld
  have hkept (failure : AttemptFailure) (h : (reconcileAndConsolidate client replies node.fcs
      node.db batch).2.2 = .error failure) := reconcileAndConsolidate_db_of_error h
  split
  · rename_i fcs db outcome hattempt
    obtain ⟨o, ho, hdb⟩ := reconcileAndConsolidate_consolidated
      (congrArg (fun result => result.2.2) hattempt)
    rw [hattempt] at hdb
    have hdb : db = node.db.consolidated o := hdb
    refine Or.inl ⟨batch, outcome, hheld, rfl, ?_⟩
    rw [hdb, ← ho.batchInfo, ← ho.targetStatus]
    rfl
  · rename_i fcs db method status hattempt
    rw [hattempt] at hkept
    have hdb : db = node.db := hkept _ rfl
    refine Or.inr (Or.inl ⟨rfl, ?_⟩)
    rw [hdb]
    rfl
  · exact Or.inr (Or.inr rfl)
  · exact Or.inr (Or.inr rfl)

variable {client : L2Client} {reply : Reply ForkchoiceUpdated} {retried : Option PeerImport}
  {n : L1Notification}

theorem Faulty.runAttempt_moves {replies : ℕ → ActionReplies}
    (hbranch : t.branch = .attempt client replies) (hscheduled : node.attemptScheduled = true)
    (hok : (runAttempt node t.faults client replies).2.isOk = true) :
    Moves config node t (runAttempt node t.faults client replies).1.derivation := by
  have hrevert : t.isRevert = false := by
    rw [Turn.isRevert, hbranch]
  have hfinished : runAttempt node t.faults client replies = node.runAttempt client replies := by
    revert hok
    unfold runAttempt
    split
    · intro hok
      cases hok
    · intro hok
      cases hok
    · intro _
      rfl
  rcases node.runAttempt_cases client replies with
    ⟨batch, outcome, hheld, hdone, hstate⟩ | ⟨-, hstate⟩ | hfailed
  · rw [hfinished, hstate]
    exact .completes client replies batch hbranch hheld outcome (hfinished ▸ hdone)
  · rw [hfinished, hstate]
    refine .keeps hrevert ?_
    rw [← hscheduled]
    rfl
  · rw [hfinished, hfailed] at hok
    cases hok

theorem ForkchoiceState.update_finalized_eq_ok {s : ForkchoiceState} {block : BlockInfo}
    (h : Node.AcceptsFinalized s block reply) :
    s.update none none (some block) = .ok { s with finalized := block } := by
  obtain ⟨hfinalized, hhead, hsafe, -⟩ := h
  simp only [update]
  split
  · rename_i hnone
    cases hnone.2.2
  split
  · rename_i hback
    exact absurd (hfinalized hback.1) hback.2
  split
  · rename_i hlt
    exact absurd hlt (Nat.not_lt.2 hhead)
  split
  · rename_i hlt
    exact absurd hlt (Nat.not_lt.2 hsafe)
  · rfl

theorem Node.updateFcs_finalized_error {node : Node} {block : BlockInfo} {e : Halt}
    (h : (node.updateFcs none none (some block) reply).2 = .error e)
    (hrun : ∀ message, e ≠ .panic message) : ¬AcceptsFinalized node.fcs block reply := by
  intro haccepts
  obtain ⟨response, rfl⟩ : ∃ response, reply = .ok response := by
    cases reply with
    | error message => cases haccepts.2.2.2
    | ok response => exact ⟨response, rfl⟩
  simp only [updateFcs, ForkchoiceState.updateFcs,
    ForkchoiceState.update_finalized_eq_ok haccepts] at h
  cases hstatus : response.status with
  | accepted =>
    simp only [hstatus] at h
    cases h
    exact hrun _ rfl
  | _ =>
    simp only [hstatus] at h
    cases h

theorem Node.handleL1Finalized_moves {n : ℕ}
    (hbranch : t.branch = .notification (.finalized n) client reply retried) (hidle : node.Idle)
    (hrun : ∀ message, (node.handleL1Finalized n reply).2 ≠ .error (.panic message)) :
    Moves config node t (node.handleL1Finalized n reply).1.derivation := by
  have hrevert : t.isRevert = false := by
    rw [Turn.isRevert, hbranch]
  revert hrun
  unfold handleL1Finalized
  split
  · intro _
    exact .keeps hrevert rfl
  · rename_i db triggered hfinalized
    intro _
    obtain ⟨finalized, hrows, -, rfl, rfl, -⟩ := finalizedByL1_ok hfinalized
    have hstate := node.push_fetched_derivation finalized (Db.finalizedWithStatus .committed n)
      .finalized
    rw [hrows] at hstate
    exact hstate ▸ .finalizes n hrevert hidle
  · rename_i db block triggered hfinalized
    obtain ⟨finalized, hrows, -, rfl, rfl, hblock⟩ := finalizedByL1_ok hfinalized
    obtain ⟨batch, row, hbatch, hrow, rfl⟩ := hblock block rfl
    split
    · rename_i node' e hupdate
      intro hrun
      have hstate : node'.derivation = { node.derivation with
          batches := (finalized.fetchAndUpdateUnprocessedFinalizedBatches n).1.batchCommits } := by
        have := congrArg (fun handled : Handled => handled.1.derivation) hupdate
        exact this.symm
      have herror : ({ node with db := (finalized.fetchAndUpdateUnprocessedFinalizedBatches n).1
          } : Node).updateFcs none none (some row.blockInfo) reply = (node', .error e) := hupdate
      have hfails := updateFcs_finalized_error (congrArg Prod.snd herror)
        (fun message h => hrun message (congrArg Except.error h))
      rw [hstate]
      have hbatches : (finalized.fetchAndUpdateUnprocessedFinalizedBatches n).1.batchCommits =
          (DerivationState.fetch { node.derivation with
            batches := (node.db.withFinalized n).batchCommits }
            (Db.finalizedWithStatus .committed n) .finalized).batches := by
        rw [← hrows]
        rfl
      rw [hbatches]
      exact .losesFinalized n client reply retried hbranch hidle ⟨batch, row, hbatch, hrow, hfails⟩
    · rename_i node' _ hupdate
      intro _
      have hstate : (node'.push (finalized.fetchAndUpdateUnprocessedFinalizedBatches n).2
          .finalized).derivation = DerivationState.fetch { node.derivation with
            batches := (node.db.withFinalized n).batchCommits }
            (Db.finalizedWithStatus .committed n) .finalized := by
        rw [← hrows, ← node.push_fetched_derivation finalized]
        have := congrArg (fun handled : Handled => (handled.1.push
          (finalized.fetchAndUpdateUnprocessedFinalizedBatches n).2 .finalized).derivation) hupdate
        exact this.symm
      rw [hstate]
      exact .finalizes n hrevert hidle

theorem Node.transact_moves {handled : Handled} (fault : Option DatabaseError)
    (hrevert : t.isRevert = false) (h : Moves config node t handled.1.derivation) :
    Moves config node t (node.transact fault handled).1.derivation := by
  cases fault with
  | none => exact h
  | some e => exact .keeps hrevert rfl

theorem Node.handleBatchCommit_moves {blockInfo : BlockInfo} {batch : BatchCommitData}
    (hbranch : t.branch = .notification (.batchCommit blockInfo batch) client reply retried)
    (hidle : node.Idle) :
    Moves config node t (node.handleBatchCommit blockInfo batch).1.derivation := by
  have hrevert : t.isRevert = false := by
    rw [Turn.isRevert, hbranch]
  unfold handleBatchCommit
  split
  · exact .keeps hrevert rfl
  rename_i db hcommit
  have hmoves : Moves config node t _ :=
    .commits blockInfo batch client reply retried hbranch hidle
  obtain ⟨l1Blocks, rfl⟩ := commitBatch_ok hcommit
  simp only
  split
  · rename_i hsynced
    simp only [if_pos hsynced] at hmoves
    simp only [push, derivation, hidle.1]
    exact hmoves
  · rename_i hsynced
    simp only [if_neg hsynced] at hmoves
    simp only [derivation, hidle.1]
    exact hmoves

theorem Node.handleBatchFinalization_moves (index : ℕ) (blockInfo : BlockInfo)
    (hrevert : t.isRevert = false) (hidle : node.Idle) :
    Moves config node t (node.handleBatchFinalization index blockInfo).1.derivation := by
  unfold handleBatchFinalization
  split
  · exact .keeps hrevert rfl
  rename_i db triggered hfinalized
  obtain ⟨finalized, hrows, -, ⟨rfl, rfl⟩ | ⟨rfl, rfl⟩⟩ := finalizedByBatch_ok hfinalized
  · have hstate := node.push_fetched_derivation finalized
      (Db.finalizedWithStatus .committed node.db.l1FinalizedBlock) .finalized
    rw [hrows] at hstate
    exact hstate ▸ .finalizesBatch index blockInfo.number node.db.l1FinalizedBlock hrevert hidle
  · have hmoves : Moves config node t _ :=
      .recordsFinalization index blockInfo.number hrevert hidle
    rw [← hrows] at hmoves
    simpa only [push, derivation, List.map_nil, List.append_nil] using hmoves

theorem Node.handleBatchRevert_moves (first last : ℕ) (blockInfo : BlockInfo)
    (reply : Reply ForkchoiceUpdated) (hrevert : t.isRevert = false) (hidle : node.Idle) :
    Moves config node t (node.handleBatchRevert first last blockInfo reply).1.derivation := by
  unfold handleBatchRevert
  split
  · exact .keeps hrevert rfl
  rename_i db safe hreverted
  obtain ⟨⟨l1Blocks, rfl⟩, -⟩ := revertBatches_ok hreverted
  have hrows : (Db.setBatchRevertBlockNumberForBatchRange { node.db with l1Blocks := l1Blocks }
      first last blockInfo).batchCommits =
        (node.db.setBatchRevertBlockNumberForBatchRange first last blockInfo).batchCommits := by
    rw [Db.setBatchRevertBlockNumberForBatchRange_batchCommits,
      Db.setBatchRevertBlockNumberForBatchRange_batchCommits]
  have hmoves : Moves config node t _ := .reverts first last blockInfo hrevert hidle
  rw [← hrows] at hmoves
  simp only
  split
  · rw [updateFcsAfterUnwind_node]
    exact hmoves
  · exact hmoves

theorem Node.finishL1Reorg_derivation (node : Node) (unwound : UnwindResult)
    (head : Option BlockInfo) (reply : Reply ForkchoiceUpdated) :
    (node.finishL1Reorg unwound .noHeldBatch head reply).1.derivation = node.derivation := by
  obtain ⟨fcs, scheduled, hfinish, hscheduled⟩ :=
    node.finishL1Reorg_node unwound .noHeldBatch head reply
  obtain ⟨sequencer, hcancel⟩ := node.cancelJobAbove_node unwound.l1BlockNumber
  rw [hfinish, hcancel, hscheduled rfl]
  rfl

theorem Node.handleL1Reorg_moves {n : ℕ}
    (hbranch : t.branch = .notification (.reorg n) client reply retried) (hidle : node.Idle) :
    Moves config node t (node.handleL1Reorg n client reply).1.derivation := by
  have hrevert : t.isRevert = false := by
    rw [Turn.isRevert, hbranch]
  unfold handleL1Reorg
  simp only
  split
  · exact .cancels hrevert hidle
  rename_i node' unwound held hunwound
  obtain ⟨db, hunwind, houtcome, hstate⟩ := unwindAndRevalidateHeldBatch_ok hunwound
  have hchecked : revalidateHeld db n node.held = (db, .noHeldBatch) := by
    rw [hidle.2]
    rfl
  simp only [hchecked] at houtcome hstate
  have hmoves : Moves config node t node'.derivation := by
    have hrows := Db.unwind_batchCommits hunwind
    simp only [hstate, revalidated, Node.derivation, hrows]
    exact .unwinds n client reply retried hbranch hidle
  obtain ⟨sequencer, hhead⟩ := node'.loweredHeadInfo_node client unwound.l2HeadBlockNumber
  split
  · rename_i h
    rw [h] at hhead
    rw [hhead]
    exact hmoves
  · rename_i node'' head h
    rw [h] at hhead
    obtain rfl : node'' = _ := hhead
    rw [houtcome, finishL1Reorg_derivation]
    exact hmoves

theorem Node.afterRevert_eq (node : Node) (db : Db) (n : ℕ) :
    let checked := revalidateHeld db n node.held
    let unwound := ({ node with
      syncState := { node.syncState with l1 := false }
      attemptScheduled := false } : Node).revalidated checked
    node.afterRevert db n = (unwound.scheduleIfSurvived checked.2).derivation ∧
      (node.held = none → node.afterRevert db n = unwound.derivation) := by
  unfold afterRevert revalidated
  cases hheld : node.held with
  | none => exact ⟨rfl, fun _ => rfl⟩
  | some batch =>
    refine ⟨?_, fun h => by cases h⟩
    simp only [revalidateHeld]
    rcases heldInvalidation db n batch with ⟨_ | reason, _ | _⟩
    · simp [scheduleIfSurvived, HeldReorgOutcome.isSurvived, derivation]
    · simp [scheduleIfSurvived, HeldReorgOutcome.isSurvived, derivation]
    · rfl
    · rfl

theorem Node.revertToL1Block_moves {n : ℕ}
    (hbranch : t.branch = .command (.revertToL1Block n reply))
    (hrun : (Processed.ofRevertCommand node.held.isSome (node.revertToL1Block n reply)).stopped =
      false) : Moves config node t (node.revertToL1Block n reply).1.derivation := by
  have hrevert : t.isRevert = true := by
    rw [Turn.isRevert, hbranch]
  -- an error that does not stop the loop was met without a held batch
  have hfree {e : Halt} {left : Node} (h : (Processed.ofRevertCommand node.held.isSome
      (left, .error e)).stopped = false) : node.held = none := by
    cases e with
    | panic message => cases h
    | error e => exact Option.isSome_eq_false_iff.1 h |> Option.isNone_iff_eq_none.1
  rcases node.revertToL1Block_cases n reply with
    ⟨e, h⟩ | ⟨unwound, result, held, fcs, hunwound, hend⟩
  · rw [h] at hrun ⊢
    exact .failsToRevert (hfree hrun) hrevert
  obtain ⟨db, hunwind, rfl, rfl⟩ := unwindAndRevalidateHeldBatch_ok hunwound
  obtain ⟨hscheduled, hunheld⟩ := node.afterRevert_eq db n
  have hmoves : Moves config node t (node.afterRevert db n) :=
    .revertsTo n reply db result hbranch hunwind
  rcases hend with ⟨e, h⟩ | h
  · rw [h] at hrun ⊢
    rw [hunheld (hfree hrun)] at hmoves
    exact hmoves
  · rw [h]
    rw [hscheduled, scheduleIfSurvived_eq] at hmoves
    rw [scheduleIfSurvived_eq]
    exact hmoves

theorem Processed.ofNotification_running {handled : Handled}
    (h : (Processed.ofNotification handled).stopped = false) (message : String) :
    handled.2 ≠ .error (.panic message) := by
  intro hpanic
  simp only [ofNotification, hpanic] at h
  cases h

theorem Faulty.handleL1Message_derivation (node : Node) (config : ChainOrchestratorConfig)
    (faults : Faults) (message : TxL1Message) (blockInfo : BlockInfo) :
    (handleL1Message node config faults message blockInfo).1.derivation = node.derivation := by
  rcases handleL1Message_cases node config faults message blockInfo with
    hsame | ⟨-, queueHash, db, -, hstore, hnode⟩
  · rw [hsame]
  obtain ⟨-, inserted, hinsert, hblock⟩ := storeL1Message_ok hstore
  obtain ⟨l1Blocks, rfl⟩ := Db.insertL1BlockInfo_ok hblock
  rw [hnode]
  obtain rfl | ⟨rows, rfl⟩ := Db.insertL1Message_ok hinsert
  · rfl
  · rfl

theorem Faulty.handleL1Notification_moves
    (hbranch : t.branch = .notification n client reply retried) (hidle : node.Idle)
    (hrun : ∀ message, (handleL1Notification node config t.faults client reply n).2 ≠
      .error (.panic message)) :
    Moves config node t (handleL1Notification node config t.faults client reply n).1.derivation := by
  have hrevert : t.isRevert = false := by
    rw [Turn.isRevert, hbranch]
  cases n with
  | processed number => exact Node.transact_moves _ hrevert (.keeps hrevert rfl)
  | newBlock blockInfo => exact Node.transact_moves _ hrevert (.keeps hrevert rfl)
  | consensus update => exact .keeps hrevert rfl
  | reorg number =>
    change Moves config node t (handleL1Reorg node t.faults number client reply).1.derivation
    unfold handleL1Reorg
    cases t.faults 0 with
    | none => exact Node.handleL1Reorg_moves hbranch hidle
    | some e => exact .cancels hrevert hidle
  | finalized number =>
    revert hrun
    change (∀ message, (node.transact (t.faults 0) (node.handleL1Finalized number reply)).2 ≠ _) →
      Moves config node t (node.transact (t.faults 0) _).1.derivation
    cases t.faults 0 with
    | none =>
      intro hrun
      exact Node.handleL1Finalized_moves hbranch hidle hrun
    | some e =>
      intro _
      exact .keeps hrevert rfl
  | batchCommit blockInfo data =>
    exact Node.transact_moves _ hrevert (Node.handleBatchCommit_moves hbranch hidle)
  | batchRevert batchInfo blockInfo =>
    exact Node.transact_moves _ hrevert (Node.handleBatchRevert_moves _ _ _ _ hrevert hidle)
  | batchRevertRange first last blockInfo =>
    exact Node.transact_moves _ hrevert (Node.handleBatchRevert_moves _ _ _ _ hrevert hidle)
  | l1Message message blockInfo timestamp =>
    exact .keeps hrevert (handleL1Message_derivation node config t.faults message blockInfo)
  | synced =>
    refine .syncs hrevert ?_
    have hsync := handleSynced_syncMoves node client t.faults
    rw [Turn.consolidation, hbranch]
    exact hsync
  | batchFinalization hash index blockInfo =>
    exact Node.transact_moves _ hrevert
      (Node.handleBatchFinalization_moves index blockInfo hrevert hidle)

theorem Faulty.notification_moves (hbranch : t.branch = .notification n client reply retried)
    (hidle : node.Idle)
    (hrun : (retryBlockedImport config t.faults n retried
      (handleL1Notification node config t.faults client reply n)).stopped = false) :
    Moves config node t (retryBlockedImport config t.faults n retried
      (handleL1Notification node config t.faults client reply n)).node.derivation := by
  have hrevert : t.isRevert = false := by
    rw [Turn.isRevert, hbranch]
  revert hrun
  unfold retryBlockedImport
  split
  · rename_i message blockInfo timestamp stored received hok
    intro _
    have hstored := handleL1Message_derivation node config t.faults message blockInfo
    refine .syncs hrevert ?_
    have hsync := importPeerBlock_syncMoves config
      (handleL1Message node config t.faults message blockInfo).1 (fun i => t.faults (i + 2)) received
    rw [hstored] at hsync
    have hconsolidation : t.consolidation config node = peerConsolidation config
        (handleL1Message node config t.faults message blockInfo).1 (fun i => t.faults (i + 2))
        received := by
      have hok : (handleL1Message node config t.faults message blockInfo).2 = .ok _ := hok
      rw [Turn.consolidation, hbranch]
      simp only
      split
      · rename_i h
        rw [h]
      · rename_i h
        exact (h _ _ (Prod.ext rfl hok)).elim
    rw [hconsolidation]
    exact hsync
  · intro hrun
    exact handleL1Notification_moves hbranch hidle (Processed.ofNotification_running hrun)

theorem Faulty.startPayloadBuilding_derivation (node : Node) (fault : Option DatabaseError)
    (s : Sequencer) (reply : Reply ForkchoiceUpdated) :
    (startPayloadBuilding node fault s reply).1.derivation = node.derivation := by
  unfold startPayloadBuilding
  split
  · rfl
  · rfl

theorem Faulty.handleCommand_moves {command : Command} (hbranch : t.branch = .command command)
    (hrun : (handleCommand node t.faults command).stopped = false) :
    Moves config node t (handleCommand node t.faults command).node.derivation := by
  cases command with
  | buildBlock reply =>
    refine .keeps (by rw [Turn.isRevert, hbranch]) ?_
    change (buildBlock node (t.faults 0) reply).1.derivation = _
    unfold buildBlock
    split
    · rfl
    split
    · rfl
    · exact startPayloadBuilding_derivation _ _ _ _
  | updateFcsHead head client reply =>
    exact .keeps (by rw [Turn.isRevert, hbranch])
      (node.updateFcsHead_leaves (t.faults 0) head client reply).derivation
  | enableAutomaticSequencing => exact .keeps (by rw [Turn.isRevert, hbranch]) rfl
  | disableAutomaticSequencing => exact .keeps (by rw [Turn.isRevert, hbranch]) rfl
  | revertToL1Block n reply =>
    revert hrun
    change (Processed.ofRevertCommand _ (revertToL1Block node t.faults n reply)).stopped = false →
      Moves config node t (revertToL1Block node t.faults n reply).1.derivation
    unfold revertToL1Block
    cases t.faults 0 with
    | none => exact Node.revertToL1Block_moves hbranch
    | some e =>
      intro hrun
      refine .failsToRevert ?_ (by rw [Turn.isRevert, hbranch])
      exact Option.isNone_iff_eq_none.1 (Option.isSome_eq_false_iff.1 hrun)
  | importBlock block client replies =>
    refine .syncs (by rw [Turn.isRevert, hbranch]) ?_
    rw [Turn.consolidation, hbranch]
    exact importChain_syncMoves node client t.faults [block] block.number replies

theorem Node.selects_notification (h : node.selects (.notification n client reply retried) = true) :
    node.Idle := by
  simp only [selects, l1NotificationReceiverMayPoll, Bool.and_eq_true] at h
  exact ⟨List.isEmpty_iff.1 h.1.2, Option.isNone_iff_eq_none.1 h.2⟩

theorem Faulty.takeBranch_moves (hselects : node.selects t.branch = true)
    (hrun : (takeBranch config t.faults node t.branch).stopped = false) :
    Moves config node t (takeBranch config t.faults node t.branch).node.derivation := by
  cases hbranch : t.branch with
  | attempt client replies =>
    rw [hbranch] at hselects hrun
    have hok : (runAttempt node t.faults client replies).2.isOk = true := by
      simpa [takeBranch] using hrun
    exact runAttempt_moves hbranch hselects hok
  | command command =>
    rw [hbranch] at hrun
    exact handleCommand_moves hbranch hrun
  | signedBlock block stored =>
    exact .keeps (by rw [Turn.isRevert, hbranch]) (node.handleSignerEvent_leaves block stored).derivation
  | newSlot shouldSequenceBlock reply =>
    refine .keeps (by rw [Turn.isRevert, hbranch]) ?_
    change (handleNewSlot node (t.faults 0) shouldSequenceBlock reply).1.derivation = _
    unfold handleNewSlot
    split
    · rfl
    split
    · exact startPayloadBuilding_derivation _ _ _ _
    · rfl
  | payloadReady payload reply =>
    refine .keeps (by rw [Turn.isRevert, hbranch]) ?_
    simp only [takeBranch]
    split
    · rfl
    rename_i job _
    exact (handlePayloadReady_frame node.takeJob (t.faults 0) job.payloadId payload reply).2.2
  | derivedBatch batch =>
    rw [hbranch] at hselects
    have hheld : node.held = none := Option.isNone_iff_eq_none.1 hselects
    change Moves config node t (node.holdBatch batch).derivation
    unfold Node.holdBatch
    split
    · rename_i request rest _ hpipeline
      split
      · rename_i hrequest
        exact .holds batch request rest hbranch hheld hpipeline hrequest.1 hrequest.2
      · exact .keeps (by rw [Turn.isRevert, hbranch]) rfl
    · exact .keeps (by rw [Turn.isRevert, hbranch]) rfl
  | newBlock received =>
    refine .syncs (by rw [Turn.isRevert, hbranch]) ?_
    rw [Turn.consolidation, hbranch]
    exact importPeerBlock_syncMoves config node t.faults received
  | notification n client reply retried =>
    rw [hbranch] at hselects hrun
    exact notification_moves hbranch (Node.selects_notification hselects) hrun

end

/-- A turn after which the loop runs is not selected, or makes one of the moves. -/
theorem Processed.turn_cases {config : ChainOrchestratorConfig} {loop : Processed} {t : Turn}
    (hrun : (loop.turn config t).stopped = false) :
    loop.stopped = false ∧ (loop.turn config t = loop ∨
      loop.node.selects t.branch = true ∧
        Moves config loop.node t (loop.turn config t).node.derivation) := by
  revert hrun
  unfold turn
  split
  · rename_i htakes
    intro hrun
    rw [takes, Bool.and_eq_true, Bool.not_eq_true'] at htakes
    exact ⟨htakes.1, Or.inr ⟨htakes.2, Faulty.takeBranch_moves htakes.2 hrun⟩⟩
  · intro hrun
    exact ⟨hrun, Or.inl rfl⟩

end RollupNode
