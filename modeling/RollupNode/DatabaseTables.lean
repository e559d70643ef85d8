import RollupNode.Primitives
import RollupNode.RelationalTable

set_option autoImplicit false

/-! The tables written by the migrations, with their enforced foreign keys. -/
namespace RollupNode
open RelationalTable

structure BatchCommitRow where
  index : ℕ
  hash : B256
  blockNumber : ℕ
  blockTimestamp : ℕ
  calldata : Bytes
  blobHash : Option B256
  finalizedBlockNumber : Option ℕ
  revertedBlockNumber : Option ℕ
  status : BatchStatus
  deriving DecidableEq, Repr

structure L2BlockRow where
  blockNumber : ℕ
  blockHash : B256
  batchIndex : ℕ
  batchHash : B256
  reverted : Bool
  deriving DecidableEq, Repr

structure L1MessageRow where
  transaction : TxL1Message
  queueHash : Option B256
  l1BlockNumber : ℕ
  l2BlockNumber : Option ℕ
  skipped : Bool
  deriving DecidableEq, Repr

def L2BlockRow.blockInfo (r : L2BlockRow) : BlockInfo := ⟨r.blockNumber, r.blockHash⟩
def L2BlockRow.batchInfo (r : L2BlockRow) : BatchInfo := ⟨r.batchIndex, r.batchHash⟩

def L2BlockRow.key (r : L2BlockRow) : B256 × B256 := (r.batchHash, r.blockHash)

def L1MessageRow.queueIndex (r : L1MessageRow) : ℕ := r.transaction.queueIndex
def L1MessageRow.hash (r : L1MessageRow) : B256 := r.transaction.txHash

structure Db where
  batchCommits : Table BatchCommitRow.hash
  l2Blocks : Table L2BlockRow.key
  l1Messages : Table L1MessageRow.queueIndex
  l1Blocks : Table BlockInfo.number
  l1LatestBlock : ℕ
  l1FinalizedBlock : ℕ
  l1ProcessedBlock : ℕ
  l2HeadBlock : ℕ
  deriving DecidableEq

/-- `From<BatchCommitData> for ActiveModel`: the finalized and reverted columns are
written as null, whatever the event carries. -/
def BatchCommitRow.ofCommitData (b : BatchCommitData) : BatchCommitRow where
  index := b.index
  hash := b.hash
  blockNumber := b.blockNumber
  blockTimestamp := b.blockTimestamp
  calldata := b.calldata
  blobHash := b.blobVersionedHash
  finalizedBlockNumber := none
  revertedBlockNumber := none
  status := .committed

def BatchCommitRow.toCommitData (r : BatchCommitRow) : BatchCommitData where
  hash := r.hash
  index := r.index
  blockNumber := r.blockNumber
  blockTimestamp := r.blockTimestamp
  calldata := r.calldata
  blobVersionedHash := r.blobHash
  finalizedBlockNumber := r.finalizedBlockNumber
  revertedBlockNumber := r.revertedBlockNumber

def L2BlockRow.ofBlock (b : BlockInfo) (batch : BatchInfo) : L2BlockRow where
  blockNumber := b.number
  blockHash := b.hash
  batchIndex := batch.index
  batchHash := batch.hash
  reverted := false

def L1MessageRow.ofEnvelope (m : L1MessageEnvelope) : L1MessageRow where
  transaction := m.transaction
  queueHash := m.queueHash
  l1BlockNumber := m.l1BlockNumber
  l2BlockNumber := m.l2BlockNumber
  skipped := false

def L1MessageRow.toEnvelope (r : L1MessageRow) : L1MessageEnvelope where
  transaction := r.transaction
  l1BlockNumber := r.l1BlockNumber
  l2BlockNumber := r.l2BlockNumber
  queueHash := r.queueHash

def genesisBatch : BatchCommitRow where
  index := 0
  hash := 0
  blockNumber := 0
  blockTimestamp := 0
  calldata := []
  blobHash := none
  finalizedBlockNumber := some 0
  revertedBlockNumber := none
  status := .finalized

def migrated (genesisHash : B256) : Db where
  batchCommits := .single genesisBatch
  l2Blocks := .single (.ofBlock ⟨0, genesisHash⟩ ⟨0, 0⟩)
  l1Messages := .empty
  l1Blocks := .empty
  l1LatestBlock := 0
  l1FinalizedBlock := 0
  l1ProcessedBlock := 0
  l2HeadBlock := 0

end RollupNode
