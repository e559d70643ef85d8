import Mathlib.Algebra.GroupWithZero.Nat
import Mathlib.Data.Nat.Notation

set_option autoImplicit false

/-! Shared data. Block numbers, batch and queue indices are natural numbers: the source keeps them
as `u64` in signed 64-bit columns, and its conversions assume that the values fit. -/
namespace RollupNode

abbrev B256 := BitVec 256

instance : LawfulBEq B256 := inferInstance
abbrev Bytes := List UInt8

structure BlockInfo where
  number : ℕ
  hash : B256
  deriving DecidableEq, Repr

structure BatchInfo where
  index : ℕ
  hash : B256
  deriving DecidableEq, Repr

structure BatchCommitData where
  hash : B256
  index : ℕ
  blockNumber : ℕ
  blockTimestamp : ℕ
  calldata : Bytes
  blobVersionedHash : Option B256
  finalizedBlockNumber : Option ℕ
  revertedBlockNumber : Option ℕ
  deriving DecidableEq, Repr

def BatchCommitData.batchInfo (b : BatchCommitData) : BatchInfo := ⟨b.index, b.hash⟩

inductive BatchStatus where
  | committed
  | processing
  | consolidated
  | reverted
  | finalized
  deriving DecidableEq, Repr

def BatchStatus.isFinalized : BatchStatus → Bool
  | .finalized => true
  | _ => false

/-- `txHash` is the transaction's own hash, computed by the transaction type
outside this repository. -/
structure TxL1Message where
  queueIndex : ℕ
  gasLimit : ℕ
  txHash : B256
  deriving DecidableEq, Repr

structure L1MessageEnvelope where
  transaction : TxL1Message
  l1BlockNumber : ℕ
  l2BlockNumber : Option ℕ
  queueHash : Option B256
  deriving DecidableEq, Repr

structure L2BlockInfoWithL1Messages where
  blockInfo : BlockInfo
  l1Messages : List B256
  deriving DecidableEq, Repr

structure BatchConsolidationOutcome where
  batchInfo : BatchInfo
  blocks : List L2BlockInfoWithL1Messages
  skippedL1Messages : List ℕ
  targetStatus : BatchStatus
  l2HeadUpdated : Bool
  deriving DecidableEq, Repr

end RollupNode
