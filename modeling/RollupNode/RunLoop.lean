import RollupNode.PeerImport
import RollupNode.Watcher

set_option autoImplicit false

/-! The run loop. What the world answers during a branch comes with it, and so does the outcome of
each database call. -/
namespace RollupNode

/-- What the handlers read of the configuration. `hashMsgQueue` folds a transaction hash into the
queue hash. -/
structure ChainOrchestratorConfig where
  optimisticSyncThreshold : ℕ
  l1V2MessageQueueStartIndex : ℕ
  hashMsgQueue : B256 → B256 → B256

def computeL1MessageQueueHash (config : ChainOrchestratorConfig) (db : Db)
    (message : TxL1Message) : Except Abort (Option B256) :=
  let first := config.l1V2MessageQueueStartIndex
  if message.queueIndex = first then .ok (some (config.hashMsgQueue 0 message.txHash))
  else if first < message.queueIndex then do
    let index := message.queueIndex - 1
    match ← db.getNL1Messages (some (.queueIndex index)) 1 with
    | [] => .error (.error (.l1MessageNotFound (.queueIndex index)))
    | previous :: _ => .ok (some (config.hashMsgQueue (previous.queueHash.getD 0) message.txHash))
  else .ok none

/-- Any message from the previous index on counts as the previous one. -/
def hasPreviousL1Message (db : Db) (queueIndex : ℕ) : Except Abort Bool :=
  if 0 < queueIndex then
    (db.getNL1Messages (some (.queueIndex (queueIndex - 1))) 1).map (fun found => !found.isEmpty)
  else .ok true

def storeL1Message (db : Db) (message : L1MessageEnvelope) (l1BlockInfo : BlockInfo) :
    Except Halt Db :=
  match hasPreviousL1Message db message.transaction.queueIndex with
  | .error e => .error e.toHalt
  | .ok false => .error (.error (.l1MessageQueueGap message.transaction.queueIndex))
  | .ok true =>
    ((db.insertL1Message message).bind (·.insertL1BlockInfo l1BlockInfo)).mapError Abort.toHalt

theorem storeL1Message_ok {db db' : Db} {message : L1MessageEnvelope} {l1BlockInfo : BlockInfo}
    (h : storeL1Message db message l1BlockInfo = .ok db') :
    hasPreviousL1Message db message.transaction.queueIndex = .ok true ∧
      ∃ inserted, db.insertL1Message message = .ok inserted ∧
        inserted.insertL1BlockInfo l1BlockInfo = .ok db' := by
  unfold storeL1Message at h
  split at h
  · cases h
  · cases h
  rename_i hprevious
  refine ⟨hprevious, ?_⟩
  cases hinsert : db.insertL1Message message with
  | error e =>
    rw [hinsert] at h
    cases h
  | ok inserted =>
    rw [hinsert] at h
    cases hblock : inserted.insertL1BlockInfo l1BlockInfo with
    | error e =>
      simp only [Except.bind, hblock] at h
      cases h
    | ok stored =>
      simp only [Except.bind, hblock] at h
      cases h
      exact ⟨inserted, rfl, hblock⟩

/-- The Engine's answers are part of the error, a panic of the message provider is not. -/
def SequencerError.toHalt : SequencerError → Halt
  | .l1MessageProviderError (.panic message) => .panic message
  | e => .error (.sequencerError e)

inductive BuildOutcome where
  | blockSequenced (block : L2Block)
  | blockBuildingSkipped
  deriving DecidableEq, Repr

namespace Node

def handleL1Message (node : Node) (config : ChainOrchestratorConfig) (message : TxL1Message)
    (l1BlockInfo : BlockInfo) : Handled :=
  match computeL1MessageQueueHash config node.db message with
  | .error e => (node, .error e.toHalt)
  | .ok queueHash =>
    match storeL1Message node.db ⟨message, l1BlockInfo.number, none, queueHash⟩ l1BlockInfo with
    | .error e => (node, .error e)
    | .ok db => ({ node with db := db }, .ok ())

def job (node : Node) : Option PayloadBuildingJob :=
  node.sequencer.bind (·.payloadBuildingJob)

def startPayloadBuilding (node : Node) (s : Sequencer) (reply : Reply ForkchoiceUpdated) :
    Handled :=
  let started := s.startPayloadBuilding node.db node.fcs reply
  ({ node with sequencer := some started.1 }, started.2.mapError SequencerError.toHalt)

def takeJob (node : Node) : Node :=
  { node with sequencer := node.sequencer.map (fun s => { s with payloadBuildingJob := none }) }

/-- `signatureStored` is the outcome of storing the signature in the same transaction. -/
def handleSignerEvent (node : Node) (block : L2Block) (signatureStored : Except Abort Unit) :
    Handled :=
  match signatureStored with
  | .error e => (node, .error e.toHalt)
  | .ok _ => ({ node with db := node.db.setL2HeadBlockNumber block.number }, .ok ())

/-- The Engine is moved before the mappings above the new head are purged. -/
def updateFcsHead (node : Node) (head : BlockInfo) (client : L2Client)
    (reply : Reply ForkchoiceUpdated) : Handled :=
  match collectRevertedTxsInRange client (head.number + 1) node.fcs.head.number with
  | .error e => (node, .error e)
  | .ok _ =>
    match node.updateFcs (some head) none none reply with
    | (node, .error e) => (node, .error e)
    | (node, .ok _) =>
      match node.db.purgeL1MessageToL2BlockMappings (some (head.number + 1)) with
      | .error e => (node, .error e.toHalt)
      | .ok db => ({ node with db := db.setL2HeadBlockNumber head.number }, .ok ())

def hasPendingDerivationWork (node : Node) : Bool := node.held.isSome || !node.pipeline.isEmpty

def pollsSequencer (node : Node) : Bool :=
  node.sequencer.isSome && node.syncState.isSynced && !node.hasPendingDerivationWork

def l1NotificationReceiverMayPoll (node : Node) : Bool :=
  node.syncState.l2 && node.pipeline.isEmpty && node.held.isNone

end Node

/-- A block from the network and what the world answers while it is handled. -/
structure PeerImport where
  sources : BlockSources
  peer : PeerBlock
  replies : ImportReplies

inductive Command where
  | buildBlock (reply : Reply ForkchoiceUpdated)
  | updateFcsHead (head : BlockInfo) (client : L2Client) (reply : Reply ForkchoiceUpdated)
  | enableAutomaticSequencing
  | disableAutomaticSequencing
  | revertToL1Block (blockNumber : ℕ) (reply : Reply ForkchoiceUpdated)
  | importBlock (block : L2Block) (client : L2Client) (replies : ImportReplies)

/-- A branch of the loop. `retried` is the held import that a stored L1 message unblocks; it can
be any, since the held one is not tracked. -/
inductive Branch where
  | attempt (client : L2Client) (replies : ℕ → ActionReplies)
  | command (command : Command)
  | signedBlock (block : L2Block) (signatureStored : Except Abort Unit)
  | newSlot (shouldSequenceBlock : Bool) (reply : Reply ForkchoiceUpdated)
  | payloadReady (payload : Reply BuiltPayload) (reply : Reply ForkchoiceUpdated)
  | derivedBatch (batch : BatchDerivationResult)
  | newBlock (received : PeerImport)
  | notification (n : L1Notification) (client : L2Client) (reply : Reply ForkchoiceUpdated)
      (retried : Option PeerImport)

/-- The precondition of a branch; a slot is announced when no job is in flight. -/
def Node.selects (node : Node) : Branch → Bool
  | .attempt _ _ => node.attemptScheduled
  | .newSlot _ _ =>
    node.pollsSequencer && node.sequencer.any (·.enabled) && node.job.isNone
  | .payloadReady _ _ => node.pollsSequencer && node.job.isSome
  | .derivedBatch _ => node.held.isNone
  | .notification _ _ _ _ => node.l1NotificationReceiverMayPoll
  | _ => true

def Processed.ofOutcome (handled : Handled) : Processed :=
  ⟨handled.1, match handled.2 with
    | .error (.panic _) => true
    | _ => false⟩

def Processed.ofPayloadReady (handled : Node × Except Halt BuildOutcome) : Processed :=
  ⟨handled.1, match handled.2 with
    | .error (.panic _) => true
    | .error (.error (.sequencerError (.invalidPayload _ _ _))) => true
    | _ => false⟩

namespace Faulty

def handleL1Message (node : Node) (config : ChainOrchestratorConfig) (faults : Faults)
    (message : TxL1Message) (l1BlockInfo : BlockInfo) : Handled :=
  node.transact (faults 0)
    (node.transact (faults 1) (node.handleL1Message config message l1BlockInfo))

theorem handleL1Message_cases (node : Node) (config : ChainOrchestratorConfig) (faults : Faults)
    (m : TxL1Message) (l1BlockInfo : BlockInfo) :
    (handleL1Message node config faults m l1BlockInfo).1 = node ∨
      (handleL1Message node config faults m l1BlockInfo).2 = .ok () ∧
        ∃ queueHash db, computeL1MessageQueueHash config node.db m = .ok queueHash ∧
          storeL1Message node.db ⟨m, l1BlockInfo.number, none, queueHash⟩ l1BlockInfo = .ok db ∧
          (handleL1Message node config faults m l1BlockInfo).1 = { node with db := db } := by
  unfold handleL1Message Node.transact
  split
  · exact Or.inl rfl
  split
  · exact Or.inl rfl
  unfold Node.handleL1Message
  split
  · exact Or.inl rfl
  rename_i queueHash hcompute
  split
  · exact Or.inl rfl
  · rename_i db hstore
    exact Or.inr ⟨rfl, queueHash, db, hcompute, hstore, rfl⟩

def handleL1Reorg (node : Node) (faults : Faults) (blockNumber : ℕ) (client : L2Client)
    (reply : Reply ForkchoiceUpdated) : Handled :=
  ({ node with attemptScheduled := false }).transact (faults 0)
    (node.handleL1Reorg blockNumber client reply)

def revertToL1Block (node : Node) (faults : Faults) (blockNumber : ℕ)
    (reply : Reply ForkchoiceUpdated) : Handled :=
  ({ node with
    syncState := { node.syncState with l1 := false }
    attemptScheduled := false }).transact (faults 0) (node.revertToL1Block blockNumber reply)

def handleSynced (node : Node) (client : L2Client) (faults : Faults) : Handled :=
  let node := { node with syncState := { node.syncState with l1 := true } }
  if node.syncState.isSynced then consolidateChain node client faults else (node, .ok ())

def importPeerBlock (node : Node) (config : ChainOrchestratorConfig) (faults : Faults)
    (received : PeerImport) : Handled :=
  let sources := received.sources
  let number := received.peer.block.number
  match decidePeerBlock node.fcs config.optimisticSyncThreshold sources received.peer with
  | .error e => (node, .error e)
  | .ok (.optimisticSync target) =>
    startOptimisticSync node (faults 0) target received.replies.fcu
  | .ok (.extendChain chain) =>
    importChain node sources.client faults chain number received.replies
  | .ok (.reorgChain chain) =>
    importChain node sources.client faults chain number received.replies
  | .ok _ => (node, .ok ())

def startPayloadBuilding (node : Node) (fault : Option DatabaseError) (s : Sequencer)
    (reply : Reply ForkchoiceUpdated) : Handled :=
  match fault with
  | some e =>
    let limited := s.l1MessageRecovery.maxMessages node.fcs.head
      s.config.payloadBuildingConfig.maxL1MessagesPerBlock
    ({ node with sequencer := some { s with l1MessageRecovery := limited.1 } },
      .error (SequencerError.l1MessageProviderError (.error e)).toHalt)
  | none => node.startPayloadBuilding s reply

/-- A job on the current head is kept; any other is discarded before the restart. -/
def buildBlock (node : Node) (fault : Option DatabaseError) (reply : Reply ForkchoiceUpdated) :
    Handled :=
  match node.sequencer with
  | none => (node, .ok ())
  | some s =>
    if s.payloadBuildingJob.any (fun job => job.parent = node.fcs.head) then (node, .ok ())
    else startPayloadBuilding node fault s.cancelPayloadBuildingJob reply

def handleNewSlot (node : Node) (fault : Option DatabaseError) (shouldSequenceBlock : Bool)
    (reply : Reply ForkchoiceUpdated) : Handled :=
  match node.sequencer with
  | none => (node, .error (.panic "sequencer must be present"))
  | some s =>
    if shouldSequenceBlock then startPayloadBuilding node fault s reply else (node, .ok ())

/-- Only an `INVALID` answer to the Engine's own payload is an error here. The signer is handed
the block of `blockSequenced`. -/
def handlePayloadReady (node : Node) (fault : Option DatabaseError) (payloadId : PayloadId)
    (payload : Reply BuiltPayload) (reply : Reply ForkchoiceUpdated) :
    Node × Except Halt BuildOutcome :=
  match node.sequencer with
  | none => (node, .error (.panic "sequencer must be present"))
  | some s =>
    match s.finalizePayloadBuilding node.fcs payloadId payload reply with
    | (s, fcs, .error (.invalidPayload block latestValidHash validationError)) =>
      ({ node with sequencer := some s, fcs := fcs }, .error
        (SequencerError.invalidPayload block latestValidHash validationError).toHalt)
    | (s, fcs, .error _) =>
      ({ node with sequencer := some s, fcs := fcs }, .ok .blockBuildingSkipped)
    | (s, fcs, .ok none) =>
      ({ node with sequencer := some s, fcs := fcs }, .ok .blockBuildingSkipped)
    | (s, fcs, .ok (some block)) =>
      match Db.call fault (node.db.updateL1MessagesFromL2Blocks [block.withL1Messages]) with
      | .error e => ({ node with sequencer := some s, fcs := fcs }, .error e.toHalt)
      | .ok db =>
        ({ node with sequencer := some s, fcs := fcs, db := db }, .ok (.blockSequenced block))

/-- The safe block is read first and the outcome is stored last; both are fatal. -/
def runAttempt (node : Node) (faults : Faults) (client : L2Client) (replies : ℕ → ActionReplies) :
    Node × Except Halt Node.AttemptStep :=
  match node.held, faults 0, faults 1, node.runAttempt client replies with
  | some _, some e, _, _ =>
    ({ node with attemptScheduled := false }, .error (.error (.databaseError e)))
  | some _, none, some e, (node', .ok (.completed _)) =>
    ({ node with fcs := node'.fcs, attemptScheduled := false },
      .error (.error (.databaseError e)))
  | _, _, _, attempted => attempted

/-- The consensus configuration, which a `consensus` notification updates, is not part of the
node: its verdicts come with the blocks. Most notifications have one transaction, in front of what
else they do. -/
def handleL1Notification (node : Node) (config : ChainOrchestratorConfig) (faults : Faults)
    (client : L2Client) (reply : Reply ForkchoiceUpdated) : L1Notification → Handled
  | .processed number =>
    node.transact (faults 0) ({ node with db := node.db.setProcessedL1BlockNumber number }, .ok ())
  | .reorg number => handleL1Reorg node faults number client reply
  | .consensus _ => (node, .ok ())
  | .newBlock blockInfo =>
    node.transact (faults 0)
      ({ node with db := node.db.setLatestL1BlockNumber blockInfo.number }, .ok ())
  | .finalized number => node.transact (faults 0) (node.handleL1Finalized number reply)
  | .batchCommit blockInfo data =>
    node.transact (faults 0) (node.handleBatchCommit blockInfo data)
  | .batchRevert batchInfo blockInfo =>
    node.transact (faults 0)
      (node.handleBatchRevert batchInfo.index batchInfo.index blockInfo reply)
  | .batchRevertRange first last blockInfo =>
    node.transact (faults 0) (node.handleBatchRevert first last blockInfo reply)
  | .l1Message message blockInfo _ => handleL1Message node config faults message blockInfo
  | .synced => handleSynced node client faults
  | .batchFinalization _ index blockInfo =>
    node.transact (faults 0) (node.handleBatchFinalization index blockInfo)

/-- An error of any command but the unwind of a held batch is logged. -/
def handleCommand (node : Node) (faults : Faults) : Command → Processed
  | .buildBlock reply => .ofOutcome (buildBlock node (faults 0) reply)
  | .updateFcsHead head client reply =>
    .ofOutcome (node.transactLast (faults 0) (node.updateFcsHead head client reply))
  | .enableAutomaticSequencing =>
    ⟨{ node with sequencer := node.sequencer.map Sequencer.enable }, false⟩
  | .disableAutomaticSequencing =>
    ⟨{ node with sequencer := node.sequencer.map Sequencer.disable }, false⟩
  | .revertToL1Block blockNumber reply =>
    .ofRevertCommand node.held.isSome (revertToL1Block node faults blockNumber reply)
  | .importBlock block client replies =>
    .ofOutcome (importChain node client faults [block] block.number replies)

/-- A held import is retried once the message it waits for is stored; its calls come after the two
of the message. -/
def retryBlockedImport (config : ChainOrchestratorConfig) (faults : Faults) (n : L1Notification)
    (retried : Option PeerImport) (handled : Handled) : Processed :=
  match n, handled.2, retried with
  | .l1Message _ _ _, .ok _, some received =>
    .ofOutcome (importPeerBlock handled.1 config (fun i => faults (i + 2)) received)
  | _, _, _ => .ofNotification handled

def takeBranch (config : ChainOrchestratorConfig) (faults : Faults) (node : Node) :
    Branch → Processed
  | .attempt client replies =>
    let attempted := runAttempt node faults client replies
    ⟨attempted.1, !attempted.2.isOk⟩
  | .command command => handleCommand node faults command
  | .signedBlock block stored => .ofOutcome (node.handleSignerEvent block stored)
  | .newSlot shouldSequenceBlock reply =>
    .ofOutcome (handleNewSlot node (faults 0) shouldSequenceBlock reply)
  | .payloadReady payload reply =>
    match node.job with
    | none => ⟨node, false⟩
    | some job =>
      .ofPayloadReady (handlePayloadReady node.takeJob (faults 0) job.payloadId payload reply)
  | .derivedBatch batch => ⟨node.holdBatch batch, false⟩
  | .newBlock received => .ofOutcome (importPeerBlock node config faults received)
  | .notification n client reply retried =>
    retryBlockedImport config faults n retried
      (handleL1Notification node config faults client reply n)

end Faulty

/-- A branch together with what the database does while it is handled. The outcome of storing a
signature comes with the branch. -/
structure Turn where
  branch : Branch
  faults : Faults

namespace Processed

def takes (loop : Processed) (branch : Branch) : Bool :=
  !loop.stopped && loop.node.selects branch

/-- One turn of the loop; a branch that is not selected, or comes too late, does nothing. -/
def turn (config : ChainOrchestratorConfig) (loop : Processed) (t : Turn) : Processed :=
  if loop.takes t.branch then Faulty.takeBranch config t.faults loop.node t.branch else loop

/-- One turn during which the database does not fail. -/
def step (config : ChainOrchestratorConfig) (loop : Processed) (branch : Branch) : Processed :=
  loop.turn config ⟨branch, noFaults⟩

end Processed

end RollupNode
