import RollupNode.Sequencer

set_option autoImplicit false

/-! One attempt of the derivation driver: a plan is carried out action by action, then stored. -/
namespace RollupNode

inductive PayloadMismatch where
  | parentHash (expected actual : B256)
  | blockNumber (expected actual : ℕ)
  | baseFee (expected actual : ℕ)
  | transactions
  deriving DecidableEq, Repr

inductive ChainOrchestratorError where
  | databaseError (e : DatabaseError)
  | engineError (e : EngineError)
  | rpcError (message : String)
  | networkRequestError (message : String)
  | sequencerError (e : SequencerError)
  | rollupNodePrimitiveError
  | l2BlockNotFoundInL2Client (number : ℕ)
  | l2SafeBlockReorgDetected
  | l1MessageMismatch (expected actual : B256)
  | l1MessageNotFound (key : L1MessageKey)
  | l1MessageQueueGap (queueIndex : ℕ)
  | chainInconsistency
  | missingBlockHeader (hash : B256)
  | blockFetchMismatch (expected actual : ℕ)
  | batchCommitGap (index : ℕ)
  | invalidBlock
  | derivedBatchEngineRequest (batch : BatchInfo) (method : String) (source : EngineError)
  | missingDerivedPayloadId (batch : BatchInfo)
  | unexpectedDerivedPayloadStatus (batch : BatchInfo) (method status : String)
  | invalidDerivedPayload (batch : BatchInfo) (method : String) (blockNumber : Option ℕ)
      (latestValidHash : Option B256) (validationError : String)
  | derivedPayloadMismatch (batch : BatchInfo) (blockNumber : ℕ) (reason : PayloadMismatch)
  | invalidBatchReorg (batch : BatchInfo) (safeBlockNumber derivedBlockNumber : ℕ)
  | safeFrontierMismatch (batch : BatchInfo) (engineSafe dbSafe : BlockInfo)
      (rethCanonical : Option BlockInfo)
  | unwindForkchoiceUpdateFailed (operation : String) (dbSafe : Option BlockInfo)
      (engineSafe : BlockInfo) (reason : String)
  deriving DecidableEq, Repr

/-- A received `SYNCING` or `ACCEPTED` holds the batch, everything else ends the attempt for
good. -/
inductive AttemptFailure where
  | hold (method status : String)
  | fatal (method outcome : String) (error : ChainOrchestratorError)
  | panic (message : String)
  deriving DecidableEq, Repr

def buildFcuMethod : String := "forkchoiceUpdated(build)"
def getPayloadMethod : String := "getPayload"
def newPayloadMethod : String := "newPayload"
def fcuMethod : String := "forkchoiceUpdated"

def engineRequestFailure (batch : BatchInfo) (method : String) (source : EngineError) :
    AttemptFailure :=
  .fatal method "ERROR" (.derivedBatchEngineRequest batch method source)

def unexpectedStatus (batch : BatchInfo) (method status : String) : AttemptFailure :=
  .fatal method status (.unexpectedDerivedPayloadStatus batch method status)

def invalidStatus (batch : BatchInfo) (method : String) (blockNumber : Option ℕ)
    (latestValidHash : Option B256) (validationError : String) : AttemptFailure :=
  .fatal method "INVALID"
    (.invalidDerivedPayload batch method blockNumber latestValidHash validationError)

def classifyBuildFcu (response : ForkchoiceUpdated) (batch : BatchInfo) :
    Except AttemptFailure PayloadId :=
  match response.status, response.payloadId with
  | .valid, some id => .ok id
  | .valid, none =>
    .error (.fatal buildFcuMethod "VALID_MISSING_PAYLOAD_ID" (.missingDerivedPayloadId batch))
  | .syncing, _ => .error (.hold buildFcuMethod "SYNCING")
  | .accepted, _ => .error (unexpectedStatus batch buildFcuMethod "ACCEPTED")
  | .invalid e, _ => .error (invalidStatus batch buildFcuMethod none
      response.payloadStatus.latestValidHash e)

def classifyNewPayload (response : PayloadStatus) (batch : BatchInfo) (blockNumber : ℕ) :
    Except AttemptFailure Unit :=
  match response.status with
  | .valid => .ok ()
  | .syncing => .error (.hold newPayloadMethod "SYNCING")
  | .accepted => .error (.hold newPayloadMethod "ACCEPTED")
  | .invalid e => .error (invalidStatus batch newPayloadMethod (some blockNumber)
      response.latestValidHash e)

def classifyCheckedFcu (response : ForkchoiceUpdated) (batch : BatchInfo)
    (blockNumber : Option ℕ) : Except AttemptFailure Unit :=
  match response.status with
  | .valid => .ok ()
  | .syncing => .error (.hold fcuMethod "SYNCING")
  | .accepted => .error (unexpectedStatus batch fcuMethod "ACCEPTED")
  | .invalid e => .error (invalidStatus batch fcuMethod blockNumber
      response.payloadStatus.latestValidHash e)

structure ActionReplies where
  build : Reply ForkchoiceUpdated
  payload : Reply ExecutionPayload
  newPayload : Reply PayloadStatus
  fcu : Reply ForkchoiceUpdated

def confirmBlock (batch : BatchDerivationResult) (fcs : ForkchoiceState)
    (head : Option BlockInfo) (target : BlockInfo) (reply : Reply ForkchoiceUpdated) :
    ForkchoiceState × Except AttemptFailure Unit :=
  let finalized := if batch.targetStatus.isFinalized then some target else none
  let result := fcs.updateFcsChecked head (some target) finalized reply
  match result.2 with
  | .error e => (result.1, .error (engineRequestFailure batch.batchInfo fcuMethod e))
  | .ok response =>
    (result.1, classifyCheckedFcu response batch.batchInfo (some target.number))

def payloadMismatch (attributes : DerivedAttributes) (safe : BlockInfo)
    (payload : ExecutionPayload) : Option PayloadMismatch :=
  if payload.parentHash ≠ safe.hash then some (.parentHash safe.hash payload.parentHash)
  else if payload.blockNumber ≠ attributes.blockNumber then
    some (.blockNumber attributes.blockNumber payload.blockNumber)
  else if payload.baseFeePerGas ≠ attributes.baseFee then
    some (.baseFee attributes.baseFee payload.baseFeePerGas)
  else if attributes.attributes.transactions ≠ some payload.transactions then some .transactions
  else none

/-- Builds the block on the safe block, compares it with the derived attributes and imports
it. -/
def rebuildBlock (batch : BatchInfo) (fcs : ForkchoiceState) (attributes : DerivedAttributes)
    (replies : ActionReplies) : Except AttemptFailure L2BlockInfoWithL1Messages := do
  if fcs.safe.number ≠ attributes.blockNumber - 1 then
    throw (.fatal "reconcileBatch" "INVARIANT_ERROR"
      (.invalidBatchReorg batch fcs.safe.number attributes.blockNumber))
  let built ← (fcs.buildPayload (some fcs.safe) replies.build).mapError
    (engineRequestFailure batch buildFcuMethod)
  let _ ← classifyBuildFcu built batch
  let payload ← replies.payload.mapError
    (fun m => engineRequestFailure batch getPayloadMethod (.transportError m))
  match payloadMismatch attributes fcs.safe payload with
  | some reason => throw (.fatal getPayloadMethod "PAYLOAD_MISMATCH"
      (.derivedPayloadMismatch batch attributes.blockNumber reason))
  | none =>
    match payload.l1Messages with
    | none => throw (.fatal getPayloadMethod "CONVERSION_ERROR" .rollupNodePrimitiveError)
    | some l1Messages =>
      let status ← replies.newPayload.mapError
        (fun m => engineRequestFailure batch newPayloadMethod (.transportError m))
      classifyNewPayload status batch payload.blockNumber
      return ⟨⟨payload.blockNumber, payload.blockHash⟩, l1Messages⟩

structure AttemptProgress where
  reorgResults : List L2BlockInfoWithL1Messages
  l2HeadUpdated : Bool
  deriving DecidableEq, Repr

def performAction (batch : BatchDerivationResult) (fcs : ForkchoiceState)
    (progress : AttemptProgress) (action : BlockConsolidationAction) (replies : ActionReplies) :
    ForkchoiceState × Except AttemptFailure AttemptProgress :=
  match action with
  | .skip _ => (fcs, .error (.panic "Skip actions have been filtered out in aggregation"))
  | .updateFcs block =>
    let target := block.blockInfo
    let head := if fcs.head.number ≤ target.number ∧ fcs.head ≠ target then some target else none
    let result := confirmBlock batch fcs head target replies.fcu
    (result.1, result.2.map
      (fun _ => { progress with l2HeadUpdated := progress.l2HeadUpdated || head.isSome }))
  | .reorg index =>
    match batch.attributes[index]? with
    | none => (fcs, .error (.panic "index out of bounds"))
    | some attributes =>
      match rebuildBlock batch.batchInfo fcs attributes replies with
      | .error failure => (fcs, .error failure)
      | .ok block =>
        let result := confirmBlock batch fcs (some block.blockInfo) block.blockInfo replies.fcu
        (result.1, result.2.map (fun _ => ⟨progress.reorgResults ++ [block], true⟩))

def performActions (batch : BatchDerivationResult) (fcs : ForkchoiceState)
    (progress : AttemptProgress) :
    List BlockConsolidationAction → (ℕ → ActionReplies) →
      ForkchoiceState × Except AttemptFailure AttemptProgress
  | [], _ => (fcs, .ok progress)
  | action :: actions, replies =>
    match performAction batch fcs progress action (replies 0) with
    | (fcs', .error failure) => (fcs', .error failure)
    | (fcs', .ok progress') =>
      performActions batch fcs' progress' actions (fun i => replies (i + 1))

def onDatabaseChain (engineSafe dbSafe : BlockInfo) (rethCanonical : Option BlockInfo) : Bool :=
  match rethCanonical with
  | some canonical => canonical = dbSafe ∧ (engineSafe.number ≠ dbSafe.number ∨ engineSafe = dbSafe)
  | none => engineSafe.number < dbSafe.number

def checkSafeFrontier (client : L2Client) (fcs : ForkchoiceState) (db : Db) (batch : BatchInfo) :
    Except AttemptFailure Unit :=
  match db.getLatestSafeL2Info with
  | .error (.panic message) => .error (.panic message)
  | .error (.error e) => .error (.fatal "getLatestSafeL2Info" "ERROR" (.databaseError e))
  | .ok (dbSafe, _) =>
    if dbSafe.number = 0 then .ok ()
    else
      match client.blockByNumber dbSafe.number with
      | .error message => .error (.fatal "getL2BlockByNumber" "ERROR" (.rpcError message))
      | .ok block =>
        if onDatabaseChain fcs.safe dbSafe (block.map L2Block.blockInfo) then .ok ()
        else .error (.fatal "reconcileBatch" "SAFE_FRONTIER_MISMATCH"
          (.safeFrontierMismatch batch fcs.safe dbSafe (block.map L2Block.blockInfo)))

/-- The messages the batch skips are stored with the outcome and not returned. -/
def storeOutcome (db : Db) (outcome : BatchConsolidationOutcome) (skipped : List ℕ) :
    Db × Except AttemptFailure BatchConsolidationOutcome :=
  match db.insertBatchConsolidationOutcome { outcome with skippedL1Messages := skipped } with
  | .ok db' => (db', .ok outcome)
  | .error (.panic message) => (db, .error (.panic message))
  | .error (.error e) =>
    (db, .error (.fatal "insertBatchConsolidationOutcome" "ERROR" (.databaseError e)))

/-- Returns the forkchoice state and database the attempt leaves, whatever its end. -/
def reconcileAndConsolidate (client : L2Client) (replies : ℕ → ActionReplies)
    (fcs : ForkchoiceState) (db : Db) (batch : BatchDerivationResult) :
    ForkchoiceState × Db × Except AttemptFailure BatchConsolidationOutcome :=
  match checkSafeFrontier client fcs db batch.batchInfo with
  | .error failure => (fcs, db, .error failure)
  | .ok _ =>
    match reconcileBatch client batch fcs with
    | .error message => (fcs, db, .error (.fatal "reconcileBatch" "ERROR" (.rpcError message)))
    | .ok reconciliation =>
      match performActions batch fcs ⟨[], false⟩ reconciliation.aggregateActions replies with
      | (fcs', .error failure) => (fcs', db, .error failure)
      | (fcs', .ok progress) =>
        let outcome := reconciliation.intoBatchConsolidationOutcome progress.reorgResults
          progress.l2HeadUpdated
        let stored := storeOutcome db outcome batch.skippedL1Messages
        (fcs', stored.1, stored.2)

end RollupNode
