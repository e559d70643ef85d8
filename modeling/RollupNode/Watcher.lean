import RollupNode.BoundedVec
import RollupNode.LinkedChain
import RollupNode.Primitives

set_option autoImplicit false

/-! The L1 watcher: one poll reports reorgs and indexes the next range of blocks. -/
namespace RollupNode
open LinkedChain

abbrev Address := BitVec 160

def maxUnfinalizedBlockCount : ℕ := 96
def headerCapacity : ℕ := 2 * maxUnfinalizedBlockCount

instance : NeZero headerCapacity := ⟨by decide⟩

structure Header where
  number : ℕ
  hash : B256
  parentHash : B256
  timestamp : ℕ
  deriving DecidableEq, Repr

instance : ChainBlock Header B256 := ⟨Header.number, Header.hash, Header.parentHash⟩

def Header.blockInfo (h : Header) : BlockInfo := ⟨h.number, h.hash⟩

inductive L1Notification where
  | processed (number : ℕ)
  | reorg (number : ℕ)
  | batchCommit (blockInfo : BlockInfo) (data : BatchCommitData)
  | batchFinalization (hash : B256) (index : ℕ) (blockInfo : BlockInfo)
  | batchRevert (batchInfo : BatchInfo) (blockInfo : BlockInfo)
  | batchRevertRange (first last : ℕ) (blockInfo : BlockInfo)
  | l1Message (message : TxL1Message) (blockInfo : BlockInfo) (blockTimestamp : ℕ)
  | consensus (authorizedSigner : Address)
  | newBlock (blockInfo : BlockInfo)
  | finalized (number : ℕ)
  | synced
  deriving DecidableEq, Repr

def L1Notification.logBlock : L1Notification → Option BlockInfo
  | .batchCommit blockInfo _ => some blockInfo
  | .batchFinalization _ _ blockInfo => some blockInfo
  | .batchRevert _ blockInfo => some blockInfo
  | .batchRevertRange _ _ blockInfo => some blockInfo
  | .l1Message _ blockInfo _ => some blockInfo
  | _ => none

inductive LogSignature where
  | queueTransaction
  | commitBatch
  | finalizeBatch
  | revertBatch
  | revertBatchRange
  deriving DecidableEq, Repr

/-- A filtered log, or one whose data does not decode under its signature. Batch indices and gas
limits are 256-bit numbers on L1. -/
inductive LogEvent where
  | queueTransaction (queueIndex gasLimit : ℕ) (txHash : B256)
  | commitBatch (batchIndex : ℕ) (batchHash : B256)
  | finalizeBatch (batchIndex : ℕ) (batchHash : B256)
  | revertBatch (batchIndex : ℕ) (batchHash : B256)
  | revertBatchRange (startBatchIndex finishBatchIndex : ℕ)
  | undecodable (signature : LogSignature)
  deriving DecidableEq, Repr

def LogEvent.signature : LogEvent → LogSignature
  | .queueTransaction _ _ _ => .queueTransaction
  | .commitBatch _ _ => .commitBatch
  | .finalizeBatch _ _ => .finalizeBatch
  | .revertBatch _ _ => .revertBatch
  | .revertBatchRange _ _ => .revertBatchRange
  | .undecodable signature => signature

structure Log where
  event : LogEvent
  blockNumber : Option ℕ
  blockHash : Option B256
  blockTimestamp : Option ℕ
  transactionHash : Option B256
  deriving DecidableEq, Repr

structure L1Transaction where
  input : Bytes
  blobVersionedHashes : Option (List B256)
  deriving DecidableEq, Repr

inductive FilterLogError where
  | missingBlockNumber
  | missingBlockHash
  | missingBlockTimestamp
  | missingTransactionHash
  | invalidNotificationCount (logs notifications : ℕ)
  | decodeLogFailed (logType : String)
  deriving DecidableEq, Repr

inductive L1WatcherError where
  | providerRpc
  | missingBlock (number : ℕ)
  | missingTransaction (hash : B256)
  | logs (e : FilterLogError)
  deriving DecidableEq, Repr

/-- How a poll ends early; `loops` stands for a walk that never returns. -/
inductive Interruption where
  | error (e : L1WatcherError)
  | panic (message : String)
  | loops
  deriving DecidableEq, Repr

inductive RpcCall where
  | finalizedBlock
  | latestBlock
  | blockByNumber
  | logs
  | blockOfLog
  | transaction
  | authorizedSigner
  deriving DecidableEq, Repr

/-- What the L1 provider serves during one poll: a chain with a finalized block on it, the logs
of its blocks, and which of the calls fail. -/
structure L1View where
  chain : Chain Header
  finalized : Header
  finalized_mem : finalized ∈ chain
  latest : Header
  latest_tip : chain.blocks.getLast? = some latest
  logs : Header → List Log
  logs_block : ∀ b ∈ chain, ∀ log ∈ logs b,
    (∀ n ∈ log.blockNumber, n = b.number) ∧ ∀ h ∈ log.blockHash, h = b.hash
  transaction : B256 → Option L1Transaction
  authorizedSigner : Address
  fails : RpcCall → Bool

structure L1State where
  head : ℕ
  finalized : ℕ
  deriving DecidableEq, Repr

structure Watcher where
  unfinalizedBlocks : BoundedVec Header headerCapacity
  l1State : L1State
  currentBlockNumber : ℕ
  logQueryBlockRange : ℕ

inductive Emission where
  | queried (block : Header)
  | sent (notification : L1Notification)
  deriving DecidableEq, Repr

structure Stepped where
  watcher : Watcher
  emitted : List Emission
  result : Except Interruption Unit

def Stepped.andThen (s : Stepped) (f : Watcher → Stepped) : Stepped :=
  match s.result with
  | .error e => ⟨s.watcher, s.emitted, .error e⟩
  | .ok _ => ⟨(f s.watcher).watcher, s.emitted ++ (f s.watcher).emitted, (f s.watcher).result⟩

namespace L1View

def call (v : L1View) (rpc : RpcCall) : Except Interruption Unit :=
  if v.fails rpc then .error (.error .providerRpc) else .ok ()

/-- The log's timestamp, else that of the block with the log's number. -/
def blockTimestamp (v : L1View) (log : Log) (blockNumber : ℕ) : Except Interruption ℕ :=
  match log.blockTimestamp with
  | some timestamp => .ok timestamp
  | none => do
    v.call .blockOfLog
    match v.chain.blocks[blockNumber]? with
    | some block => .ok block.timestamp
    | none => .error (.error (.logs .missingBlockTimestamp))

end L1View

def require {α : Type} (value : Option α) (e : FilterLogError) : Except Interruption α :=
  match value with
  | some a => .ok a
  | none => .error (.error (.logs e))

def toU64 (n : ℕ) : Except Interruption ℕ :=
  if n < 2 ^ 64 then .ok n else .error (.panic "u256 to u64 conversion error")

def Log.undecodable {α : Type} (logType : String) : Except Interruption α :=
  .error (.error (.logs (.decodeLogFailed logType)))

def Log.blockInfo (log : Log) : Except Interruption BlockInfo := do
  let number ← require log.blockNumber .missingBlockNumber
  let hash ← require log.blockHash .missingBlockHash
  return ⟨number, hash⟩

namespace L1View

/-- A gas limit above 64 bits is saturated. -/
def handleL1Message (v : L1View) (log : Log) : Except Interruption L1Notification :=
  match log.event with
  | .queueTransaction queueIndex gasLimit txHash => do
    let blockInfo ← log.blockInfo
    let timestamp ← v.blockTimestamp log blockInfo.number
    return .l1Message ⟨queueIndex, min gasLimit (2 ^ 64 - 1), txHash⟩ blockInfo timestamp
  | _ => Log.undecodable "QueueTransaction"

def handleL1Messages (v : L1View) (logs : List Log) : Except Interruption (List L1Notification) :=
  logs.mapM v.handleL1Message

/-- The commit at a position of its transaction takes the blob hash at that position; the
genesis batch is skipped. -/
def commitNotification (tx : L1Transaction) (blockInfo : BlockInfo) (timestamp : ℕ)
    (entry : Log × ℕ) : Except Interruption (Option L1Notification) :=
  match entry.1.event with
  | .commitBatch batchIndex batchHash =>
    if batchIndex = 0 then .ok none
    else do
      let index ← toU64 batchIndex
      return some (.batchCommit blockInfo
        { hash := batchHash
          index := index
          blockNumber := blockInfo.number
          blockTimestamp := timestamp
          calldata := tx.input
          blobVersionedHash := tx.blobVersionedHashes.bind (·[entry.2]?)
          finalizedBlockNumber := none
          revertedBlockNumber := none })
  | _ => Log.undecodable "CommitBatch"

/-- The commits of one transaction share the block and the calldata of the first log. -/
def handleTransactionCommits (v : L1View) (logs : List Log) :
    Except Interruption (List L1Notification) := do
  let blockNumber ← require (logs.head?.bind (·.blockNumber)) .missingBlockNumber
  let blockHash ← require (logs.head?.bind (·.blockHash)) .missingBlockHash
  let timestamp ← match logs.head? with
    | some log => v.blockTimestamp log blockNumber
    | none => .error (.error (.logs .missingBlockTimestamp))
  let txHash ← require (logs.head?.bind (·.transactionHash)) .missingTransactionHash
  v.call .transaction
  match v.transaction txHash with
  | none => .error (.error (.missingTransaction txHash))
  | some tx =>
    let notifications ← logs.zipIdx.mapM (commitNotification tx ⟨blockNumber, blockHash⟩ timestamp)
    return notifications.filterMap id

def handleBatchCommits (v : L1View) (logs : List Log) :
    Except Interruption (List L1Notification) := do
  let notifications ← (logs.splitBy (fun a b => a.transactionHash = b.transactionHash)).mapM
    v.handleTransactionCommits
  return notifications.flatten

def handleBatchRevert (log : Log) : Except Interruption L1Notification :=
  match log.event with
  | .revertBatch batchIndex batchHash => do
    let blockInfo ← log.blockInfo
    let index ← toU64 batchIndex
    return .batchRevert ⟨index, batchHash⟩ blockInfo
  | _ => Log.undecodable "RevertBatch_0"

def handleBatchRevertRange (log : Log) : Except Interruption L1Notification :=
  match log.event with
  | .revertBatchRange startBatchIndex finishBatchIndex => do
    let blockInfo ← log.blockInfo
    let first ← toU64 startBatchIndex
    let last ← toU64 finishBatchIndex
    return .batchRevertRange first last blockInfo
  | _ => Log.undecodable "RevertBatch_1"

def handleFinalizeBatch (log : Log) : Except Interruption (Option L1Notification) :=
  match log.event with
  | .finalizeBatch batchIndex batchHash =>
    if batchIndex = 0 then .ok none
    else do
      let blockInfo ← log.blockInfo
      let index ← toU64 batchIndex
      return some (.batchFinalization batchHash index blockInfo)
  | _ => Log.undecodable "FinalizeBatch"

def handleBatchReverts (logs : List Log) : Except Interruption (List L1Notification) :=
  logs.mapM handleBatchRevert

def handleBatchRevertRanges (logs : List Log) : Except Interruption (List L1Notification) :=
  logs.mapM handleBatchRevertRange

def handleBatchFinalization (logs : List Log) : Except Interruption (List L1Notification) := do
  let notifications ← logs.mapM handleFinalizeBatch
  return notifications.filterMap id

def handleGroup (v : L1View) (group : List Log) : Except Interruption (List L1Notification) :=
  let signature : Option LogSignature := group.head?.map (fun log => log.event.signature)
  match signature with
  | some .queueTransaction => v.handleL1Messages group
  | some .commitBatch => v.handleBatchCommits group
  | some .finalizeBatch => handleBatchFinalization group
  | some .revertBatch => handleBatchReverts group
  | some .revertBatchRange => handleBatchRevertRanges group
  | none => .ok []

def handleLogs (v : L1View) (logs : List Log) : Except Interruption (List L1Notification) := do
  let notifications ← (logs.splitBy (fun a b => a.event.signature = b.event.signature)).mapM
    v.handleGroup
  return notifications.flatten

end L1View

namespace Watcher

/-- Notifies of a higher finalized block and forgets the headers up to it; all of them when the
finalized block is above the last one. -/
def handleFinalizedBlock (w : Watcher) (finalized : Header) : Stepped :=
  let isNew := w.l1State.finalized < finalized.number
  let sent : List Emission := if isNew then [.sent (.finalized finalized.number)] else []
  let w := if isNew then { w with l1State := { w.l1State with finalized := finalized.number } } else w
  match w.unfinalizedBlocks.data.getLast? with
  | none => ⟨w, sent, .ok ()⟩
  | some tail =>
    if tail.number < finalized.number then
      ⟨{ w with unfinalizedBlocks := .new }, sent, .ok ()⟩
    else
      match w.unfinalizedBlocks.data.findIdx? (fun h => h.hash = finalized.hash) with
      | none => ⟨w, sent, .ok ()⟩
      | some position =>
        ⟨{ w with unfinalizedBlocks := w.unfinalizedBlocks.drainTo position }, sent, .ok ()⟩

def rposition (headers : List Header) (header : Header) : Option ℕ :=
  (headers.reverse.findIdx? (fun h => h = header)).map (fun i => headers.length - 1 - i)

/-- Walks down from the latest block to a remembered one or to the finalized block. The chain is
kept with the lowest block first. -/
def walkDown (unfinalized : List Header) (v : L1View) :
    ℕ → Header → List Header → Except Interruption (Option ℕ × List Header)
  | fuel, current, chain =>
    let position := rposition unfinalized current
    if position.isSome ∨ current.parentHash = v.finalized.hash ∨ current.hash = v.finalized.hash then
      .ok (position, chain)
    else
      match fuel with
      | 0 => .error .loops
      | fuel + 1 =>
        if v.fails .blockByNumber then .error (.error .providerRpc)
        else
          match v.chain.blocks[current.number - 1]? with
          | none => .error (.error (.missingBlock (current.number - 1)))
          | some block => walkDown unfinalized v fuel block (block :: chain)

def fetchUnfinalizedChain (w : Watcher) (v : L1View) :
    Except Interruption (BoundedVec Header headerCapacity) := do
  let unfinalized := w.unfinalizedBlocks.data
  let (splitPosition, chain) ← walkDown unfinalized v v.latest.number v.latest [v.latest]
  return (BoundedVec.new.extend (unfinalized.take (splitPosition.getD 0))).extend chain

def newHead (w : Watcher) (latest : Header) : Watcher :=
  { w with l1State := { w.l1State with head := latest.number } }

/-- Indexing goes back to the block below the first remembered header that was replaced. -/
def reorged (w : Watcher) (chain : BoundedVec Header headerCapacity) : Watcher × List Emission :=
  let number? := (divergence w.unfinalizedBlocks.data chain.data).map (fun p => p.1.number - 1)
  match number? with
  | none => ({ w with unfinalizedBlocks := chain }, [])
  | some number =>
    ({ w with
        unfinalizedBlocks := chain
        currentBlockNumber := if number < w.currentBlockNumber then number else w.currentBlockNumber },
      [.sent (.reorg number)])

def handleLatestBlock (w : Watcher) (v : L1View) : Stepped :=
  let tail := w.unfinalizedBlocks.data.getLast?
  let announced : List Emission := [.sent (.newBlock v.latest.blockInfo)]
  if tail.any (fun h => h.hash = v.latest.hash) then ⟨w, [], .ok ()⟩
  else if tail.any (fun h => h.hash = v.latest.parentHash) then
    let w := { w with unfinalizedBlocks := w.unfinalizedBlocks.pushBack v.latest }
    ⟨w.newHead v.latest, announced, .ok ()⟩
  else
    match w.fetchUnfinalizedChain v with
    | .error e => ⟨w, [], .error e⟩
    | .ok chain => ⟨(w.reorged chain).1.newHead v.latest, (w.reorged chain).2 ++ announced, .ok ()⟩

/-- The signer is read again only when the block number differs from the stored head. -/
def handleSystemContractUpdate (w : Watcher) (v : L1View) :
    Except Interruption (Option L1Notification) :=
  if v.latest.number ≠ w.l1State.head then do
    v.call .authorizedSigner
    return some (.consensus v.authorizedSigner)
  else .ok none

def toBlock (w : Watcher) (v : L1View) : ℕ :=
  min (w.currentBlockNumber + w.logQueryBlockRange) v.latest.number

def nextBlocks (w : Watcher) (v : L1View) : List Header :=
  v.chain.blocks.filter (fun b => w.currentBlockNumber + 1 ≤ b.number ∧ b.number ≤ w.toBlock v)

def nextNotifications (w : Watcher) (v : L1View) (logs : List Log) :
    Except Interruption (List L1Notification) := do
  let notifications ← v.handleLogs logs
  let update ← w.handleSystemContractUpdate v
  let notifications := notifications ++ update.toList
  if logs.length < notifications.length then
    .error (.error (.logs (.invalidNotificationCount logs.length notifications.length)))
  else .ok notifications

def indexNext (w : Watcher) (v : L1View) : Stepped :=
  if v.latest.number = w.currentBlockNumber then ⟨w, [], .ok ()⟩
  else if v.fails .logs then ⟨w, [], .error (.error .providerRpc)⟩
  else
    let queried := (w.nextBlocks v).map Emission.queried
    match w.nextNotifications v ((w.nextBlocks v).flatMap v.logs) with
    | .error e => ⟨w, queried, .error e⟩
    | .ok notifications =>
      ⟨{ w with currentBlockNumber := w.toBlock v },
        queried ++ notifications.map Emission.sent ++ [.sent (.processed (w.toBlock v))], .ok ()⟩

def step (w : Watcher) (v : L1View) : Stepped :=
  if v.fails .finalizedBlock then ⟨w, [], .error (.error .providerRpc)⟩
  else
    (w.handleFinalizedBlock v.finalized).andThen fun w =>
      if v.fails .latestBlock then ⟨w, [], .error (.error .providerRpc)⟩
      else (w.handleLatestBlock v).andThen fun w => w.indexNext v

end Watcher
end RollupNode
