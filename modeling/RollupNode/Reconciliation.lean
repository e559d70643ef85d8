import RollupNode.DatabaseConsolidation
import RollupNode.Forkchoice

set_option autoImplicit false

/-! Reconciliation of a derived batch with the L2 chain: the plan for each block. -/
namespace RollupNode

structure BlockDataHint where
  extraData : Option Bytes
  stateRoot : Option B256
  coinbase : Option (BitVec 160)
  nonce : Option (BitVec 64)
  difficulty : Option (BitVec 256)
  deriving DecidableEq, Repr

structure PayloadAttributes where
  timestamp : ℕ
  prevRandao : B256
  transactions : Option (List Bytes)
  gasLimit : Option ℕ
  blockDataHint : BlockDataHint
  deriving DecidableEq, Repr

structure DerivedAttributes where
  blockNumber : ℕ
  baseFee : ℕ
  attributes : PayloadAttributes
  deriving DecidableEq, Repr

structure BatchDerivationResult where
  attributes : List DerivedAttributes
  batchInfo : BatchInfo
  skippedL1Messages : List ℕ
  targetStatus : BatchStatus
  deriving DecidableEq, Repr

/-- `l1Messages` are the hashes of the block's L1 message transactions. -/
structure L2Block where
  number : ℕ
  hash : B256
  parentHash : B256
  timestamp : ℕ
  baseFeePerGas : Option ℕ
  gasLimit : ℕ
  mixHash : Option B256
  extraData : Bytes
  stateRoot : B256
  beneficiary : BitVec 160
  nonce : Option (BitVec 64)
  transactions : List Bytes
  l1Messages : List B256
  deriving DecidableEq, Repr

def L2Block.blockInfo (b : L2Block) : BlockInfo := ⟨b.number, b.hash⟩
def L2Block.withL1Messages (b : L2Block) : L2BlockInfoWithL1Messages := ⟨b.blockInfo, b.l1Messages⟩

/-- `l1Messages` is absent when an L1 message transaction does not decode. -/
structure ExecutionPayload where
  parentHash : B256
  blockNumber : ℕ
  blockHash : B256
  baseFeePerGas : ℕ
  transactions : List Bytes
  l1Messages : Option (List B256)
  deriving DecidableEq, Repr

/-- The execution client's chain: the block it returns for a height has that height. -/
structure L2Client where
  blockByNumber : ℕ → Reply (Option L2Block)
  number_eq : ∀ n b, blockByNumber n = .ok (some b) → b.number = n

def emptyBlock (number : ℕ) (hash parentHash : B256) : L2Block :=
  ⟨number, hash, parentHash, 0, some 1, 0, none, [], 0, 0, none, [], []⟩

def L2Client.ofChain (blocks : List L2Block) : L2Client where
  blockByNumber n := .ok (blocks.find? (fun b => b.number = n))
  number_eq := by
    intro n b h
    have hfound := Except.ok.inj h
    have hnumber := List.find?_some hfound
    exact of_decide_eq_true hnumber

def blockMatchesAttributes (attributes : PayloadAttributes) (baseFee : ℕ) (block : L2Block) :
    Bool :=
  block.baseFeePerGas = some baseFee ∧
  attributes.gasLimit.all (· = block.gasLimit) ∧
  attributes.transactions = some block.transactions ∧
  block.timestamp = attributes.timestamp ∧
  block.mixHash.getD 0 = attributes.prevRandao ∧
  attributes.blockDataHint.extraData.all (· = block.extraData) ∧
  attributes.blockDataHint.stateRoot.all (· = block.stateRoot) ∧
  attributes.blockDataHint.coinbase.all (· = block.beneficiary) ∧
  attributes.blockDataHint.nonce.getD 0 = block.nonce.getD 0

inductive BlockConsolidationAction where
  | updateFcs (block : L2BlockInfoWithL1Messages)
  | skip (block : L2BlockInfoWithL1Messages)
  | reorg (index : ℕ)
  deriving DecidableEq, Repr

namespace BlockConsolidationAction

def isUpdateFcs : BlockConsolidationAction → Bool
  | .updateFcs _ => true
  | _ => false

def isSkip : BlockConsolidationAction → Bool
  | .skip _ => true
  | _ => false

def isReorg : BlockConsolidationAction → Bool
  | .reorg _ => true
  | _ => false

def intoBlockInfo : BlockConsolidationAction → Option L2BlockInfoWithL1Messages
  | .updateFcs b => some b
  | .skip b => some b
  | .reorg _ => none

end BlockConsolidationAction

structure BatchReconciliationResult where
  batchInfo : BatchInfo
  actions : List BlockConsolidationAction
  targetStatus : BatchStatus
  deriving DecidableEq, Repr

def consolidationAction (client : L2Client) (finalized : ℕ) (index : ℕ)
    (attributes : DerivedAttributes) : Reply BlockConsolidationAction := do
  match ← client.blockByNumber attributes.blockNumber with
  | none => return .reorg index
  | some block =>
    if blockMatchesAttributes attributes.attributes attributes.baseFee block then
      if attributes.blockNumber ≤ finalized then return .skip block.withL1Messages
      else return .updateFcs block.withL1Messages
    else return .reorg index

def rebuildSuffix (actions : List BlockConsolidationAction) : List BlockConsolidationAction :=
  match actions.findIdx? BlockConsolidationAction.isReorg with
  | some first =>
    actions.mapIdx (fun index action => if first ≤ index then .reorg index else action)
  | none => actions

def reconcileBatch (client : L2Client) (batch : BatchDerivationResult) (fcs : ForkchoiceState) :
    Reply BatchReconciliationResult := do
  let actions ← (batch.attributes.zipIdx).mapM
    (fun (attributes, index) => consolidationAction client fcs.finalized.number index attributes)
  return ⟨batch.batchInfo, rebuildSuffix actions, batch.targetStatus⟩

namespace BatchReconciliationResult

/-- Consecutive forkchoice updates collapse to the last of them, leading skips are dropped. -/
def aggregateAction (actions : List BlockConsolidationAction) (next : BlockConsolidationAction) :
    List BlockConsolidationAction :=
  match actions.getLast? with
  | some last =>
    if last.isUpdateFcs ∧ next.isUpdateFcs then actions.dropLast ++ [next] else actions ++ [next]
  | none => if next.isSkip then actions else actions ++ [next]

def aggregateActions (r : BatchReconciliationResult) : List BlockConsolidationAction :=
  r.actions.foldl aggregateAction []

def intoBatchConsolidationOutcome (r : BatchReconciliationResult)
    (reorgResults : List L2BlockInfoWithL1Messages) (l2HeadUpdated : Bool) :
    BatchConsolidationOutcome where
  batchInfo := r.batchInfo
  blocks := r.actions.filterMap BlockConsolidationAction.intoBlockInfo ++ reorgResults
  skippedL1Messages := []
  targetStatus := r.targetStatus
  l2HeadUpdated := l2HeadUpdated

end BatchReconciliationResult
end RollupNode
