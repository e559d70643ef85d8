import RollupNode.LinkedChain
import RollupNode.Orchestrator

set_option autoImplicit false

/-! Blocks from peers: the chain that a received block leads to, and its import. -/
namespace RollupNode
open LinkedChain

instance : ChainBlock L2Block B256 := ⟨L2Block.number, L2Block.hash, L2Block.parentHash⟩

def headerFetchCount : ℕ := 100
def batchSize : ℕ := 100

/-- Where blocks are read while a peer block is handled: the execution client by number and by
hash, and the network for a range of ancestors, highest first. -/
structure BlockSources where
  client : L2Client
  blockByHash : B256 → Reply (Option L2Block)
  fullBlockRange : B256 → ℕ → List L2Block

/-- A received block; `consensus` is the verdict on its signature and `signatureStored` the
outcome of storing that signature. -/
structure PeerBlock where
  block : L2Block
  consensus : Bool
  signatureStored : Except Abort Unit

/-- What is done with a received block. `endlessSearch` stands for a search that the network
never lets end. -/
inductive PeerDecision where
  | finalizedBlockReceived
  | blockFailedConsensusChecks
  | optimisticSync (target : BlockInfo)
  | extendChain (chain : List L2Block)
  | reorgChain (chain : List L2Block)
  | blockAlreadyKnown
  | oldForkReceived
  | endlessSearch
  deriving DecidableEq, Repr

def PeerDecision.imported : PeerDecision → Option (List L2Block)
  | .extendChain chain => some chain
  | .reorgChain chain => some chain
  | _ => none

def commonAncestor (client : L2Client) : List L2Block → Except Halt (Option ℕ)
  | [] => .ok none
  | header :: rest => do
    let current ← Node.blockAt client header.number
    if header.hash = current.hash then .ok (some 0)
    else
      let index ← commonAncestor client rest
      return index.map (· + 1)

/-- Fetches ancestors, down to the block above the safe one, until one of them is canonical. -/
def reconcileFork (sources : BlockSources) (safe : ℕ) : ℕ → List L2Block → Except Halt PeerDecision
  | _, [] => .error (.panic "at least one header exists")
  | fuel, front :: rest =>
    if safe + 1 < front.number then
      match fuel with
      | 0 => .ok .endlessSearch
      | fuel + 1 => do
        let fetchCount := min headerFetchCount (front.number - 1 - safe)
        let headers := sources.fullBlockRange front.parentHash fetchCount
        match ← commonAncestor sources.client headers with
        | some index => .ok (.reorgChain ((headers.take index).reverse ++ front :: rest))
        | none => reconcileFork sources safe fuel (headers.reverse ++ front :: rest)
    else .error (.error .l2SafeBlockReorgDetected)

/-- A block above the head: its ancestors down to the head's height decide. -/
def decideAboveHead (fcs : ForkchoiceState) (sources : BlockSources) (received : L2Block) :
    Except Halt PeerDecision :=
  let newHeaders :=
    if fcs.head.number + 1 < received.number then
      (sources.fullBlockRange received.hash (received.number - fcs.head.number)).reverse
    else [received]
  match newHeaders with
  | [] => .error (.panic "at least one header exists")
  | first :: rest =>
    if first.parentHash = fcs.head.hash then .ok (.extendChain (first :: rest))
    else reconcileFork sources fcs.safe.number received.number (first :: rest)

/-- A block at or below the head: it must be new, above the safe block and later than the head. -/
def decideBelowHead (fcs : ForkchoiceState) (sources : BlockSources) (received : L2Block) :
    Except Halt PeerDecision := do
  let currentChainBlock ← Node.blockAt sources.client received.number
  if currentChainBlock.hash = received.hash then return .blockAlreadyKnown
  if received.number ≤ fcs.safe.number then .error (.error .l2SafeBlockReorgDetected)
  else do
    let currentHead ← Node.blockAt sources.client fcs.head.number
    if received.timestamp ≤ currentHead.timestamp then return .oldForkReceived
    match sources.blockByHash received.parentHash with
    | .error message => .error (.error (.rpcError message))
    | .ok (some parent) =>
      if fcs.safe.number ≤ parent.number then return .reorgChain [received]
      else .error (.error .l2SafeBlockReorgDetected)
    | .ok none => reconcileFork sources fcs.safe.number received.number [received]

/-- `handle_block_from_peer` up to the call of `import_chain` or `optimistic_sync`. -/
def decidePeerBlock (fcs : ForkchoiceState) (optimisticSyncThreshold : ℕ) (sources : BlockSources)
    (peer : PeerBlock) : Except Halt PeerDecision :=
  let received := peer.block
  if received.number ≤ fcs.finalized.number then .ok .finalizedBlockReceived
  else if peer.consensus = false then .ok .blockFailedConsensusChecks
  else
    match peer.signatureStored with
    | .error e => .error e.toHalt
    | .ok _ =>
      if fcs.head.number + optimisticSyncThreshold < received.number then
        .ok (.optimisticSync received.blockInfo)
      else if fcs.head.number < received.number then decideAboveHead fcs sources received
      else decideBelowHead fcs sources received

namespace Node

def compareL1Messages : List B256 → List L1MessageEnvelope → Except Halt Unit
  | [], _ => .ok ()
  | hash :: _, [] => .error (.error (.l1MessageNotFound (.transactionHash hash)))
  | hash :: hashes, message :: messages =>
    if hash = message.transaction.txHash then compareL1Messages hashes messages
    else .error (.error (.l1MessageMismatch message.transaction.txHash hash))

def validateL1Messages (db : Db) (blocks : List L2Block) : Except Halt Unit :=
  let hashes := blocks.flatMap (·.l1Messages)
  match hashes, blocks with
  | [], _ => .ok ()
  | _, [] => .error (.panic "at least one block exists because we have l1 messages")
  | _, first :: _ => do
    let messages ← (db.getNL1Messages (some (.blockNumber first.number)) hashes.length).mapError
      Abort.toHalt
    compareL1Messages hashes messages

theorem validateL1Messages_cons {db : Db} {first : L2Block} {rest : List L2Block}
    {messages : List L1MessageEnvelope}
    (hquery : db.getNL1Messages (some (.blockNumber first.number))
      ((first :: rest).flatMap (·.l1Messages)).length = .ok messages) :
    validateL1Messages db (first :: rest) =
      compareL1Messages ((first :: rest).flatMap (·.l1Messages)) messages := by
  unfold validateL1Messages
  simp only
  split
  · rename_i hnone
    rw [hnone]
    rfl
  · rename_i hblocks _
    cases hblocks
  · rename_i hblocks _
    cases hblocks
    rw [hquery]
    rfl

end Node

namespace Faulty

def validateL1Messages (fault : Option DatabaseError) (db : Db) (blocks : List L2Block) :
    Except Halt Unit :=
  match fault with
  | some e => .error (.error (.databaseError e))
  | none => Node.validateL1Messages db blocks

/-- Validates and maps one chunk of unsafe blocks; a chunk that does not pass purges the mappings
above the safe block. -/
def consolidateChunk (client : L2Client) (faults : Faults) (db : Db) (numbers : List ℕ) :
    Db × Except Halt Unit :=
  match numbers.mapM (Node.blockAt client) with
  | .error _ => (db, .error (.error .invalidBlock))
  | .ok blocks =>
    match validateL1Messages (faults 0) db blocks with
    | .error e =>
      match Db.call (faults 1) (db.purgeL1MessageToL2BlockMappings none) with
      | .error abort => (db, .error abort.toHalt)
      | .ok db => (db, .error e)
    | .ok _ =>
      match Db.call (faults 1)
        (db.updateL1MessagesFromL2Blocks (blocks.map L2Block.withL1Messages)) with
      | .error abort => (db, .error abort.toHalt)
      | .ok db => (db, .ok ())

def consolidateChunks (client : L2Client) (faults : Faults) (db : Db) :
    List (List ℕ) → Db × Except Halt Unit
  | [] => (db, .ok ())
  | chunk :: chunks =>
    match consolidateChunk client faults db chunk with
    | (db, .error e) => (db, .error e)
    | (db, .ok _) => consolidateChunks client (fun i => faults (i + 2)) db chunks

def unsafeChunks (fcs : ForkchoiceState) : List (List ℕ) :=
  let first := fcs.safe.number + 1
  (List.range' first (fcs.head.number + 1 - first)).toChunks batchSize

def consolidateChain (node : Node) (client : L2Client) (faults : Faults) : Handled :=
  match consolidateChunks client faults node.db (unsafeChunks node.fcs) with
  | (db, .error e) => ({ node with db := db }, .error e)
  | (db, .ok _) =>
    ({ node with db := db }).transact (faults (2 * (unsafeChunks node.fcs).length))
      (let (db, batches) := db.fetchAndUpdateUnprocessedCommittedBatches
       (({ node with db := db }).push batches .consolidated, .ok ()))

end Faulty

structure ImportReplies where
  newPayload : L2Block → Reply PayloadStatus
  fcu : Reply ForkchoiceUpdated

def submitPayloads (replies : ImportReplies) : List L2Block → Except Halt Unit
  | [] => .ok ()
  | block :: rest =>
    match replies.newPayload block with
    | .error message => .error (EngineError.transportError message).toHalt
    | .ok status =>
      match status.status with
      | .invalid _ => .error (.error .invalidBlock)
      | _ => submitPayloads replies rest

namespace Faulty

/-- Far behind the peer the head is set at once and the mappings of unsafe blocks are purged. -/
def startOptimisticSync (node : Node) (fault : Option DatabaseError) (target : BlockInfo)
    (reply : Reply ForkchoiceUpdated) : Handled :=
  let result := node.fcs.optimisticSync target reply
  let node := { node with fcs := result.1 }
  match result.2 with
  | .error e => (node, .error e.toHalt)
  | .ok _ =>
    let node := { node with syncState := { node.syncState with l2 := false } }
    match Db.call fault (node.db.purgeL1MessageToL2BlockMappings none) with
    | .error e => (node, .error e.toHalt)
    | .ok db => ({ node with db := db }, .ok ())

def recordImport (node : Node) (fault : Option DatabaseError) (chain : List L2Block)
    (received : ℕ) : Handled :=
  if node.syncState.isSynced then
    match Db.call fault (node.db.updateL1MessagesFromL2Blocks (chain.map (·.withL1Messages))) with
    | .error e => (node, .error e.toHalt)
    | .ok db => ({ node with db := db.setL2HeadBlockNumber received }, .ok ())
  else (node, .ok ())

/-- `recorded` is the outcome of the transaction that records the import, the last of all. -/
def finishImport (node : Node) (client : L2Client) (faults : Faults)
    (recorded : Option DatabaseError) (chain : List L2Block) (received : ℕ) : Handled :=
  if node.syncState.l2 then recordImport node recorded chain received
  else
    let node := { node with syncState := { node.syncState with l2 := true } }
    if node.syncState.isSynced then
      match consolidateChain node client faults with
      | (node, .error e) => (node, .error e)
      | (node, .ok _) => recordImport node recorded chain received
    else (node, .ok ())

def validateImport (node : Node) (fault : Option DatabaseError) (replies : ImportReplies)
    (chain : List L2Block) : Except Halt Unit := do
  if node.syncState.isSynced then validateL1Messages fault node.db chain
  submitPayloads replies chain

/-- The first call validates the blocks, the second records them, and the others belong to the
consolidation in between. -/
def importChain (node : Node) (client : L2Client) (faults : Faults) (chain : List L2Block)
    (received : ℕ) (replies : ImportReplies) : Handled :=
  match chain.getLast? with
  | none => (node, .error (.panic "at least one header exists"))
  | some last =>
    match validateImport node (faults 0) replies chain with
    | .error e => (node, .error e)
    | .ok _ =>
      let result :=
        if node.syncState.l2 then node.fcs.updateFcs (some last.blockInfo) none none replies.fcu
        else node.fcs.optimisticSync last.blockInfo replies.fcu
      let node := { node with fcs := result.1 }
      match result.2 with
      | .error e => (node, .error e.toHalt)
      | .ok response =>
        match response.status with
        | .invalid _ => (node, .error (.error .invalidBlock))
        | .valid => finishImport node client (fun i => faults (i + 2)) (faults 1) chain received
        | _ => (node, .ok ())

end Faulty
end RollupNode
