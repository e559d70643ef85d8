import RollupNode.DerivationAttempt
import RollupNode.DatabaseUnwind
import RollupNode.ExceptTraversal

set_option autoImplicit false

/-! The chain orchestrator. A handler returns the state it leaves together with its result, since
the database is committed before the Engine is moved. -/
namespace RollupNode
open ExceptTraversal

/-- What a handler ends with when it does not succeed: an error the run loop inspects, or a
panic that takes the task down. -/
inductive Halt where
  | error (e : ChainOrchestratorError)
  | panic (message : String)
  deriving DecidableEq, Repr

def Abort.toHalt : Abort → Halt
  | .error e => .error (.databaseError e)
  | .panic message => .panic message

def EngineError.toHalt : EngineError → Halt
  | .unreachable message => .panic message
  | e => .error (.engineError e)

def FcsError.message : FcsError → String
  | .noUpdateProvided => "No update provided for head, safe or finalized"
  | .finalizedBlockNumberNotIncreasing => "Finalized block number not increasing"
  | .headBelowSafe => "head block number can not be below the safe block number"
  | .safeBelowFinalized => "Safe block number can not be below the finalized block number"

def EngineError.message : EngineError → String
  | .fcsError e => "Fork choice state error: " ++ e.message
  | .transportError message => "Transport error: " ++ message
  | .unreachable message => message

structure BatchRequest where
  batchInfo : BatchInfo
  targetStatus : BatchStatus
  deriving DecidableEq, Repr

structure SyncState where
  l1 : Bool
  l2 : Bool
  deriving DecidableEq, Repr

def SyncState.isSynced (s : SyncState) : Bool := s.l1 && s.l2

/-- `pipeline` holds the requests that have not yielded yet, `held` the derived batch the
driver owns. -/
structure Node where
  db : Db
  fcs : ForkchoiceState
  syncState : SyncState
  sequencer : Option Sequencer
  pipeline : List BatchRequest
  held : Option BatchDerivationResult
  attemptScheduled : Bool

abbrev Handled := Node × Except Halt Unit

namespace Node

def fresh (genesisHash : B256) : Node where
  db := migrated genesisHash
  fcs := ⟨⟨0, genesisHash⟩, ⟨0, genesisHash⟩, ⟨0, genesisHash⟩⟩
  syncState := ⟨false, true⟩
  sequencer := none
  pipeline := []
  held := none
  attemptScheduled := false

def push (node : Node) (batches : List BatchInfo) (target : BatchStatus) : Node :=
  { node with pipeline := node.pipeline ++ batches.map (fun b => ⟨b, target⟩) }

def updateFcs (node : Node) (head safe finalized : Option BlockInfo)
    (reply : Reply ForkchoiceUpdated) : Handled :=
  let result := node.fcs.updateFcs head safe finalized reply
  ({ node with fcs := result.1 }, (result.2.mapError EngineError.toHalt).map (fun _ => ()))

/-- The L1 finalized number, the finalized block of the consolidated batches and the batches
to derive as finalized, in one transaction. -/
def finalizedByL1 (db : Db) (blockNumber : ℕ) :
    Except Abort (Db × Option BlockInfo × List BatchInfo) := do
  let (db, finalizedBlockInfo) ←
    (db.setFinalizedL1BlockNumber blockNumber).finalizeConsolidatedBatches blockNumber
  let (db, triggeredBatches) := db.fetchAndUpdateUnprocessedFinalizedBatches blockNumber
  return (db, finalizedBlockInfo, triggeredBatches)

/-- The batches are fetched from the finalized rows. The block handed to the Engine is the last
block of the highest batch that is finalized. -/
theorem finalizedByL1_ok {db db' : Db} {triggered : List BatchInfo} {n : ℕ}
    {info : Option BlockInfo} (h : finalizedByL1 db n = .ok (db', info, triggered)) :
    ∃ finalized : Db, finalized.batchCommits = (db.withFinalized n).batchCommits ∧
      finalized.l2Blocks = db.l2Blocks ∧
      db' = (finalized.fetchAndUpdateUnprocessedFinalizedBatches n).1 ∧
      triggered = (finalized.fetchAndUpdateUnprocessedFinalizedBatches n).2 ∧
      ∀ b ∈ info, ∃ batch row, db.highestToFinalize n = some batch ∧
        db.lastBlockOf batch.hash = some row ∧ b = row.blockInfo := by
  obtain ⟨⟨finalized, block⟩, hfinalize, h⟩ := bind_eq_ok.1 h
  cases h
  unfold Db.finalizeConsolidatedBatches at hfinalize
  split at hfinalize
  · rename_i hnone
    cases hfinalize
    exact ⟨_, (Db.withFinalized_of_none hnone).symm, rfl, rfl, rfl, fun b hb => by cases hb⟩
  · rename_i batch hbatch
    split at hfinalize
    · cases hfinalize
    · rename_i row hrow
      cases hfinalize
      refine ⟨(db.setFinalizedL1BlockNumber n).withFinalized n, rfl, rfl, rfl, rfl, ?_⟩
      rintro _ ⟨⟩
      exact ⟨batch, row, hbatch, hrow, rfl⟩

def handleL1Finalized (node : Node) (blockNumber : ℕ) (reply : Reply ForkchoiceUpdated) :
    Handled :=
  match finalizedByL1 node.db blockNumber with
  | .error e => (node, .error e.toHalt)
  | .ok (db, none, triggeredBatches) =>
    (({ node with db := db }).push triggeredBatches .finalized, .ok ())
  | .ok (db, some block, triggeredBatches) =>
    match ({ node with db := db }).updateFcs none none (some block) reply with
    | (node', .error e) => (node', .error e)
    | (node', .ok _) => (node'.push triggeredBatches .finalized, .ok ())

def commitBatch (db : Db) (blockInfo : BlockInfo) (batch : BatchCommitData) :
    Except Halt Db :=
  if batch.index = 0 then .error (.panic "attempt to subtract with overflow")
  else if db.getBatchByIndex (batch.index - 1) = none then
    .error (.error (.batchCommitGap batch.index))
  else ((db.insertBatch batch).insertL1BlockInfo blockInfo).mapError Abort.toHalt

theorem commitBatch_ok {db db' : Db} {blockInfo : BlockInfo} {batch : BatchCommitData}
    (h : commitBatch db blockInfo batch = .ok db') :
    ∃ l1Blocks, db' = { db.insertBatch batch with l1Blocks := l1Blocks } := by
  unfold commitBatch at h
  split at h
  · cases h
  split at h
  · cases h
  cases hinfo : (db.insertBatch batch).insertL1BlockInfo blockInfo with
  | error e =>
    rw [hinfo] at h
    cases h
  | ok stored =>
    rw [hinfo] at h
    cases h
    exact Db.insertL1BlockInfo_ok hinfo

def handleBatchCommit (node : Node) (blockInfo : BlockInfo) (batch : BatchCommitData) :
    Handled :=
  match commitBatch node.db blockInfo batch with
  | .error e => (node, .error e)
  | .ok db =>
    let node := { node with db := db }
    (if node.syncState.isSynced then node.push [batch.batchInfo] .consolidated else node, .ok ())

def finalizedByBatch (db : Db) (batchIndex : ℕ) (l1BlockInfo : BlockInfo) :
    Except Abort (Db × List BatchInfo) := do
  let db ← db.insertL1BlockInfo l1BlockInfo
  let db := db.finalizeBatchesUpToIndex batchIndex l1BlockInfo.number
  return if l1BlockInfo.number ≤ db.l1FinalizedBlock then
    db.fetchAndUpdateUnprocessedFinalizedBatches db.l1FinalizedBlock
  else (db, [])

theorem finalizedByBatch_ok {db db' : Db} {triggered : List BatchInfo} {l1BlockInfo : BlockInfo}
    {batchIndex : ℕ} (h : finalizedByBatch db batchIndex l1BlockInfo = .ok (db', triggered)) :
    ∃ finalized : Db, finalized.batchCommits =
        (db.finalizeBatchesUpToIndex batchIndex l1BlockInfo.number).batchCommits ∧
      finalized.l2Blocks = db.l2Blocks ∧
      (db' = (finalized.fetchAndUpdateUnprocessedFinalizedBatches db.l1FinalizedBlock).1 ∧
          triggered =
            (finalized.fetchAndUpdateUnprocessedFinalizedBatches db.l1FinalizedBlock).2 ∨
        db' = finalized ∧ triggered = []) := by
  obtain ⟨stored, hinfo, h⟩ := bind_eq_ok.1 h
  obtain ⟨l1Blocks, rfl⟩ := Db.insertL1BlockInfo_ok hinfo
  refine ⟨Db.finalizeBatchesUpToIndex { db with l1Blocks := l1Blocks } batchIndex
    l1BlockInfo.number, rfl, rfl, ?_⟩
  simp only [pure, Except.pure] at h
  split at h
  · cases h
    exact Or.inl ⟨rfl, rfl⟩
  · cases h
    exact Or.inr ⟨rfl, rfl⟩

def handleBatchFinalization (node : Node) (batchIndex : ℕ) (l1BlockInfo : BlockInfo) : Handled :=
  match finalizedByBatch node.db batchIndex l1BlockInfo with
  | .error e => (node, .error e.toHalt)
  | .ok (db, triggeredBatches) =>
    (({ node with db := db }).push triggeredBatches .finalized, .ok ())

/-- The pipeline yields the result of its first request into the empty slot of the driver. A
result has the index and the target of its request; its hash is that of the row it was derived
from. -/
def holdBatch (node : Node) (batch : BatchDerivationResult) : Node :=
  match node.held, node.pipeline with
  | none, request :: rest =>
    if request.batchInfo.index = batch.batchInfo.index ∧
        request.targetStatus = batch.targetStatus then
      { node with pipeline := rest, held := some batch, attemptScheduled := true }
    else node
  | _, _ => node

inductive AttemptStep where
  | completed (outcome : BatchConsolidationOutcome)
  | held
  deriving DecidableEq, Repr

def runAttempt (node : Node) (client : L2Client) (replies : ℕ → ActionReplies) :
    Node × Except Halt AttemptStep :=
  match node.held with
  | none => (node, .error (.panic "attempt requires a held batch"))
  | some batch =>
    match reconcileAndConsolidate client replies node.fcs node.db batch with
    | (fcs, db, .ok outcome) =>
      ({ node with fcs := fcs, db := db, held := none, attemptScheduled := false },
        .ok (.completed outcome))
    | (fcs, db, .error (.hold _ _)) =>
      ({ node with fcs := fcs, db := db, attemptScheduled := true }, .ok .held)
    | (fcs, db, .error (.fatal _ _ e)) =>
      ({ node with fcs := fcs, db := db, attemptScheduled := false }, .error (.error e))
    | (fcs, db, .error (.panic message)) =>
      ({ node with fcs := fcs, db := db, attemptScheduled := false }, .error (.panic message))

inductive HeldReorgOutcome where
  | noHeldBatch
  | invalidated (batchInfo : BatchInfo) (reason : String)
  | survived (batchInfo : BatchInfo)
  deriving DecidableEq, Repr

def HeldReorgOutcome.isSurvived : HeldReorgOutcome → Bool
  | .survived _ => true
  | _ => false

/-- Why an unwind to `ancestor` invalidates a held batch, and whether its finalization is what
is gone. -/
def heldInvalidation (db : Db) (ancestor : ℕ) (held : BatchDerivationResult) :
    Option String × Bool :=
  match db.getBatchByIndex held.batchInfo.index with
  | none => (some "batch row removed or reverted", false)
  | some batch =>
    let surviving : Bool := batch.hash = held.batchInfo.hash ∧ batch.blockNumber ≤ ancestor
    let finalizationInvalid := held.targetStatus.isFinalized && surviving &&
      batch.finalizedBlockNumber.all (ancestor < ·)
    if batch.hash ≠ held.batchInfo.hash then (some "batch hash changed", finalizationInvalid)
    else if ancestor < batch.blockNumber then (some "batch commit reverted", finalizationInvalid)
    else if finalizationInvalid then (some "batch finalization reverted", finalizationInvalid)
    else (none, finalizationInvalid)

/-- The row of a batch whose finalization is gone goes back to committed. -/
def revalidateHeld (db : Db) (ancestor : ℕ) : Option BatchDerivationResult → Db × HeldReorgOutcome
  | none => (db, .noHeldBatch)
  | some held =>
    match heldInvalidation db ancestor held with
    | (some reason, true) =>
      ((db.transitionBatchStatus held.batchInfo.hash .processing .committed).1,
        .invalidated held.batchInfo reason)
    | (some reason, false) => (db, .invalidated held.batchInfo reason)
    | (none, _) => (db, .survived held.batchInfo)

def unwindAndRevalidateHeldBatch (node : Node) (ancestor : ℕ) :
    Except Abort (Node × UnwindResult × HeldReorgOutcome) := do
  let (db, unwindResult) ← node.db.unwind ancestor
  let (db, outcome) := revalidateHeld db ancestor node.held
  let node := match outcome with
    | .invalidated _ _ => { node with db := db, held := none, attemptScheduled := false }
    | _ => { node with db := db }
  return (node, unwindResult, outcome)

def cancelPayloadBuildingJob (node : Node) : Node :=
  { node with sequencer := node.sequencer.map Sequencer.cancelPayloadBuildingJob }

def scheduleIfSurvived (node : Node) (outcome : HeldReorgOutcome) : Node :=
  if outcome.isSurvived ∧ node.held.isSome then { node with attemptScheduled := true } else node

theorem scheduleIfSurvived_eq (node : Node) (outcome : HeldReorgOutcome) :
    node.scheduleIfSurvived outcome = { node with
      attemptScheduled := node.attemptScheduled || (outcome.isSurvived && node.held.isSome) } := by
  unfold scheduleIfSurvived
  split
  · rename_i h
    rw [h.1, h.2, Bool.and_self, Bool.or_true]
  · rename_i h
    rw [← Bool.and_eq_true, Bool.not_eq_true] at h
    rw [h, Bool.or_false]

/-- Anything but a `VALID` answer is the one error that stops the run loop. -/
def updateFcsAfterUnwind (node : Node) (operation : String) (head safe : Option BlockInfo)
    (reply : Reply ForkchoiceUpdated) : Handled :=
  let failed (fcs : ForkchoiceState) (reason : String) : Handled :=
    ({ node with fcs := fcs },
      .error (.error (.unwindForkchoiceUpdateFailed operation safe fcs.safe reason)))
  match node.fcs.updateFcsChecked head safe none reply with
  | (fcs, .error e) => failed fcs e.message
  | (fcs, .ok response) =>
    match response.status with
    | .valid => ({ node with fcs := fcs }, .ok ())
    | .invalid validationError => failed fcs ("Engine returned INVALID: " ++ validationError)
    | .syncing => failed fcs "Engine returned SYNCING"
    | .accepted => failed fcs "Engine returned ACCEPTED"

theorem updateFcsAfterUnwind_node (node : Node) (operation : String) (head safe : Option BlockInfo)
    (reply : Reply ForkchoiceUpdated) :
    (node.updateFcsAfterUnwind operation head safe reply).1 =
      { node with fcs := (node.fcs.updateFcsChecked head safe none reply).1 } := by
  unfold updateFcsAfterUnwind
  rcases node.fcs.updateFcsChecked head safe none reply with ⟨fcs, e | response⟩
  · rfl
  · simp only
    split <;> rfl

def blockAt (client : L2Client) (number : ℕ) : Except Halt L2Block :=
  match client.blockByNumber number with
  | .error message => .error (.error (.rpcError message))
  | .ok none => .error (.error (.l2BlockNotFoundInL2Client number))
  | .ok (some block) => .ok block

/-- The reverted transactions themselves go back to the pool and are not modelled. -/
def collectRevertedTxsInRange (client : L2Client) (first last : ℕ) : Except Halt Unit := do
  let _ ← ((List.range' first (last + 1 - first)).mapM (blockAt client))

def cancelJobAbove (node : Node) (l1BlockNumber : ℕ) : Node :=
  if ((node.sequencer.bind (·.payloadBuildingJob)).bind (·.l1Origin)).any (l1BlockNumber < ·) then
    node.cancelPayloadBuildingJob
  else node

theorem cancelJobAbove_node (node : Node) (n : ℕ) :
    ∃ sequencer, node.cancelJobAbove n = { node with sequencer := sequencer } := by
  unfold cancelJobAbove
  split
  · exact ⟨_, rfl⟩
  · exact ⟨_, rfl⟩

/-- The lowered head is looked up before the Engine is moved, with the job cancelled between. -/
def loweredHeadInfo (node : Node) (client : L2Client) :
    Option ℕ → Node × Except Halt (Option BlockInfo)
  | none => (node, .ok none)
  | some number =>
    match blockAt client number with
    | .error e => (node, .error e)
    | .ok block =>
      let node := node.cancelPayloadBuildingJob
      match collectRevertedTxsInRange client (number + 1) node.fcs.head.number with
      | .error e => (node, .error e)
      | .ok _ => (node, .ok (some ⟨number, block.hash⟩))

theorem loweredHeadInfo_node (node : Node) (client : L2Client) (lowered : Option ℕ) :
    ∃ sequencer, (node.loweredHeadInfo client lowered).1 =
      { node with sequencer := sequencer } := by
  unfold loweredHeadInfo
  split
  · exact ⟨_, rfl⟩
  split
  · exact ⟨_, rfl⟩
  simp only
  split
  · exact ⟨_, rfl⟩
  · exact ⟨_, rfl⟩

/-- The Engine is moved only when the head or the safe block changed. -/
def finishL1Reorg (node : Node) (unwound : UnwindResult) (held : HeldReorgOutcome)
    (head : Option BlockInfo) (reply : Reply ForkchoiceUpdated) : Handled :=
  let node := node.cancelJobAbove unwound.l1BlockNumber
  if head = none ∧ unwound.l2SafeBlockInfo = none then (node.scheduleIfSurvived held, .ok ())
  else
    match node.updateFcsAfterUnwind "L1 reorg" head unwound.l2SafeBlockInfo reply with
    | (node, .error e) => (node, .error e)
    | (node, .ok _) => (node.scheduleIfSurvived held, .ok ())

theorem finishL1Reorg_node (node : Node) (unwound : UnwindResult) (held : HeldReorgOutcome)
    (head : Option BlockInfo) (reply : Reply ForkchoiceUpdated) :
    ∃ fcs scheduled, (node.finishL1Reorg unwound held head reply).1 =
      { node.cancelJobAbove unwound.l1BlockNumber with
        fcs := fcs
        attemptScheduled := scheduled } ∧
      (held = .noHeldBatch → scheduled = node.attemptScheduled) := by
  have hscheduled : (node.cancelJobAbove unwound.l1BlockNumber).attemptScheduled =
      node.attemptScheduled := by
    obtain ⟨sequencer, h⟩ := node.cancelJobAbove_node unwound.l1BlockNumber
    rw [h]
  have hsurvived (h : held = .noHeldBatch) : held.isSurvived = false := by
    rw [h]
    rfl
  unfold finishL1Reorg
  simp only [scheduleIfSurvived_eq]
  split
  · refine ⟨_, _, rfl, fun h => ?_⟩
    rw [hscheduled, hsurvived h, Bool.false_and, Bool.or_false]
  have hupdate := (node.cancelJobAbove unwound.l1BlockNumber).updateFcsAfterUnwind_node "L1 reorg"
    head unwound.l2SafeBlockInfo reply
  split
  · rename_i h
    rw [h] at hupdate
    exact ⟨_, _, hupdate, fun _ => hscheduled⟩
  · rename_i node' _ h
    rw [h] at hupdate
    obtain rfl : node' = _ := hupdate
    refine ⟨_, _, rfl, fun h => ?_⟩
    rw [hscheduled, hsurvived h, Bool.false_and, Bool.or_false]

def handleL1Reorg (node : Node) (blockNumber : ℕ) (client : L2Client)
    (reply : Reply ForkchoiceUpdated) : Handled :=
  let node := { node with attemptScheduled := false }
  match node.unwindAndRevalidateHeldBatch blockNumber with
  | .error e => (node, .error e.toHalt)
  | .ok (node, unwound, held) =>
    match node.loweredHeadInfo client unwound.l2HeadBlockNumber with
    | (node, .error e) => (node, .error e)
    | (node, .ok head) => node.finishL1Reorg unwound held head reply

def revertBatches (db : Db) (startIndex endIndex : ℕ) (l1BlockInfo : BlockInfo) :
    Except Abort (Db × BlockInfo) := do
  let db ← db.insertL1BlockInfo l1BlockInfo
  let db := db.setBatchRevertBlockNumberForBatchRange startIndex endIndex l1BlockInfo
  let (safe, _) ← db.getLatestSafeL2Info
  return (db, safe)

theorem revertBatches_ok {db db' : Db} {l1BlockInfo : BlockInfo} {startIndex endIndex : ℕ}
    {safe : BlockInfo} (h : revertBatches db startIndex endIndex l1BlockInfo = .ok (db', safe)) :
    (∃ l1Blocks, db' = Db.setBatchRevertBlockNumberForBatchRange
        { db with l1Blocks := l1Blocks } startIndex endIndex l1BlockInfo) ∧
      ∃ batch, db'.getLatestSafeL2Info = .ok (safe, batch) := by
  obtain ⟨stored, hinfo, h⟩ := bind_eq_ok.1 h
  obtain ⟨⟨latest, batch⟩, hlatest, h⟩ := bind_eq_ok.1 h
  cases h
  obtain ⟨l1Blocks, rfl⟩ := Db.insertL1BlockInfo_ok hinfo
  exact ⟨⟨l1Blocks, rfl⟩, batch, hlatest⟩

/-- Before L1 is synced a revert is recorded and the Engine is left where it is. -/
def handleBatchRevert (node : Node) (startIndex endIndex : ℕ) (l1BlockInfo : BlockInfo)
    (reply : Reply ForkchoiceUpdated) : Handled :=
  match revertBatches node.db startIndex endIndex l1BlockInfo with
  | .error e => (node, .error e.toHalt)
  | .ok (db, safe) =>
    let node := { node with db := db }
    if node.syncState.isSynced then
      node.updateFcsAfterUnwind "batch revert" none (some safe) reply
    else (node, .ok ())

def moveSafeAfterRevert (node : Node) (reply : Reply ForkchoiceUpdated) :
    Option BlockInfo → Handled
  | none => (node, .ok ())
  | some safe =>
    if node.fcs.finalized.number ≤ safe.number then node.updateFcs none (some safe) none reply
    else node.updateFcs none (some node.fcs.finalized) none reply

theorem moveSafeAfterRevert_node (node : Node) (reply : Reply ForkchoiceUpdated)
    (safe : Option BlockInfo) :
    ∃ fcs, (node.moveSafeAfterRevert reply safe).1 = { node with fcs := fcs } := by
  unfold moveSafeAfterRevert
  split
  · exact ⟨_, rfl⟩
  split
  · exact ⟨_, rfl⟩
  · exact ⟨_, rfl⟩

def revertToL1Block (node : Node) (blockNumber : ℕ) (reply : Reply ForkchoiceUpdated) : Handled :=
  let node := { node with
    syncState := { node.syncState with l1 := false }
    attemptScheduled := false }
  match node.unwindAndRevalidateHeldBatch blockNumber with
  | .error e => (node, .error e.toHalt)
  | .ok (node, unwound, held) =>
    match node.moveSafeAfterRevert reply unwound.l2SafeBlockInfo with
    | (node, .error e) => (node, .error e)
    | (node, .ok _) => (node.scheduleIfSurvived held, .ok ())

end Node

structure Processed where
  node : Node
  stopped : Bool

/-- An L1 notification stops the loop on a panic or when the Engine did not follow an unwind. -/
def Processed.ofNotification (handled : Handled) : Processed :=
  ⟨handled.1, match handled.2 with
    | .error (.panic _) => true
    | .error (.error (.unwindForkchoiceUpdateFailed _ _ _ _)) => true
    | _ => false⟩

/-- The administrative unwind stops the loop on a panic, and on an error when a batch was held
before it. -/
def Processed.ofRevertCommand (held : Bool) (handled : Handled) : Processed :=
  ⟨handled.1, match handled.2 with
    | .error (.panic _) => true
    | .error (.error _) => held
    | .ok _ => false⟩

/-! ### Database calls that fail

A failed transaction is rolled back, so that what is left is the state in front of it. -/

/-- The errors that the database reports for the calls of one branch, in their order. -/
abbrev Faults := ℕ → Option DatabaseError

def noFaults : Faults := fun _ => none

def Db.call {α : Type} (fault : Option DatabaseError) (outcome : Except Abort α) :
    Except Abort α :=
  match fault with
  | some e => .error (.error e)
  | none => outcome

def Node.transact (node : Node) (fault : Option DatabaseError) (handled : Handled) : Handled :=
  match fault with
  | some e => (node, .error (.error (.databaseError e)))
  | none => handled

/-- A handler that ends with its transaction, which `handled` has carried out. -/
def Node.transactLast (node : Node) (fault : Option DatabaseError) (handled : Handled) : Handled :=
  match fault, handled.2 with
  | some e, .ok _ => ({ handled.1 with db := node.db }, .error (.error (.databaseError e)))
  | _, _ => handled

end RollupNode
