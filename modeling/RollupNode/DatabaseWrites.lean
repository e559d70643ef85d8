import RollupNode.DatabaseReads

set_option autoImplicit false

/-! `DatabaseWriteOperations`. A failed transaction is rolled back and returns no database. -/
namespace RollupNode
open RelationalTable

namespace Db

def setLatestL1BlockNumber (db : Db) (n : ℕ) : Db := { db with l1LatestBlock := n }
def setProcessedL1BlockNumber (db : Db) (n : ℕ) : Db := { db with l1ProcessedBlock := n }
def setL2HeadBlockNumber (db : Db) (n : ℕ) : Db := { db with l2HeadBlock := n }

def removeL1BlockInfoLeq (db : Db) (n : ℕ) : Db :=
  { db with l1Blocks := db.l1Blocks.deleteWhere (fun b => b.number ≤ n) }

def removeL1BlockInfoGt (db : Db) (n : ℕ) : Db :=
  { db with l1Blocks := db.l1Blocks.deleteWhere (fun b => n < b.number) }

def setFinalizedL1BlockNumber (db : Db) (n : ℕ) : Db :=
  { db.removeL1BlockInfoLeq n with l1FinalizedBlock := n }

/-- Conflicts on the block number update the hash; the hash column is unique as well. -/
def insertL1BlockInfo (db : Db) (b : BlockInfo) : Except Abort Db :=
  if b.number ≤ db.l1FinalizedBlock then .ok db
  else if ∃ r ∈ db.l1Blocks, r.hash = b.hash ∧ r.number ≠ b.number then
    .error (.error (.databaseError "UNIQUE constraint failed: l1_block.block_hash"))
  else .ok { db with
    l1Blocks := db.l1Blocks.upsert b (fun r => { r with hash := b.hash }) (fun _ => rfl) }

theorem insertL1BlockInfo_ok {db db' : Db} {b : BlockInfo} (h : db.insertL1BlockInfo b = .ok db') :
    ∃ l1Blocks, db' = { db with l1Blocks := l1Blocks } := by
  unfold insertL1BlockInfo at h
  split at h
  · cases h
    exact ⟨_, rfl⟩
  · split at h
    · cases h
    · cases h
      exact ⟨_, rfl⟩

/-- On a conflicting hash the status and the reverted column keep their values. -/
def insertBatch (db : Db) (b : BatchCommitData) : Db :=
  let new := BatchCommitRow.ofCommitData b
  { db with
    batchCommits := db.batchCommits.upsert new
      (fun r => { r with
        index := new.index
        blockNumber := new.blockNumber
        blockTimestamp := new.blockTimestamp
        calldata := new.calldata
        blobHash := new.blobHash
        finalizedBlockNumber := new.finalizedBlockNumber }) (fun _ => rfl) }

def deleteBatchFinalizationGtBlockNumber (db : Db) (n : ℕ) : Db :=
  { db with
    batchCommits := db.batchCommits.updateWhere (fun r => r.finalizedBlockNumber.any (n < ·))
      (fun r => { r with finalizedBlockNumber := none }) (fun _ => rfl) }

/-- Rewrites the reverted column and the status of the given batches and the reverted
flag of their blocks. -/
def markReverted (db : Db) (hashes : List B256) (reverted : Option ℕ) (status : BatchStatus)
    (flag : Bool) : Db :=
  { db with
    batchCommits := db.batchCommits.updateWhere (fun r => r.hash ∈ hashes)
      (fun r => { r with revertedBlockNumber := reverted, status := status }) (fun _ => rfl)
    l2Blocks := db.l2Blocks.updateWhere (fun r => r.batchHash ∈ hashes)
      (fun r => { r with reverted := flag }) (fun _ => rfl) }

def inRevertedRange (startIndex endIndex : ℕ) (r : BatchCommitRow) : Bool :=
  startIndex ≤ r.index ∧ r.index ≤ endIndex ∧ r.revertedBlockNumber = none

def setBatchRevertBlockNumberForBatchRange (db : Db) (startIndex endIndex : ℕ)
    (block : BlockInfo) : Db :=
  let batchHashes := (db.batchCommits.select (inRevertedRange startIndex endIndex)).map (·.hash)
  db.markReverted batchHashes (some block.number) .reverted true

def revertedAbove (n : ℕ) (r : BatchCommitRow) : Bool := r.revertedBlockNumber.any (n < ·)

/-- Returns the number of reverts removed. Every restored batch is set to consolidated. -/
def deleteBatchRevertGtBlockNumber (db : Db) (n : ℕ) : Db × ℕ :=
  let batchHashes := (db.batchCommits.select (revertedAbove n)).map (·.hash)
  (db.markReverted batchHashes none .consolidated false, batchHashes.length)

theorem setBatchRevertBlockNumberForBatchRange_batchCommits (db : Db) (startIndex endIndex : ℕ)
    (block : BlockInfo) :
    (db.setBatchRevertBlockNumberForBatchRange startIndex endIndex block).batchCommits =
      db.batchCommits.updateWhere (inRevertedRange startIndex endIndex)
        (fun r => { r with revertedBlockNumber := some block.number, status := .reverted })
        (fun _ => rfl) :=
  db.batchCommits.updateWhere_selected _ _ _

theorem deleteBatchRevertGtBlockNumber_batchCommits (db : Db) (n : ℕ) :
    (db.deleteBatchRevertGtBlockNumber n).1.batchCommits =
      db.batchCommits.updateWhere (revertedAbove n)
        (fun r => { r with revertedBlockNumber := none, status := .consolidated })
        (fun _ => rfl) :=
  db.batchCommits.updateWhere_selected _ _ _

def changeBatchProcessingToCommittedStatus (db : Db) : Db :=
  { db with
    batchCommits := db.batchCommits.updateWhere (fun r => r.status = .processing)
      (fun r => { r with status := .committed }) (fun _ => rfl) }

def updateBatchStatus (db : Db) (batchHash : B256) (status : BatchStatus) : Db :=
  { db with
    batchCommits := db.batchCommits.updateWhere (fun r => r.hash = batchHash)
      (fun r => { r with status := status }) (fun _ => rfl) }

def transitionBatchStatus (db : Db) (batchHash : B256) (source target : BatchStatus) :
    Db × Bool :=
  let expected (r : BatchCommitRow) : Bool := r.hash = batchHash ∧ r.status = source
  ({ db with
    batchCommits := db.batchCommits.updateWhere expected
      (fun r => { r with status := target }) (fun _ => rfl) },
    (db.batchCommits.select expected).length = 1)

def finalizeBatchesUpToIndex (db : Db) (batchIndex blockNumber : ℕ) : Db :=
  { db with
    batchCommits := db.batchCommits.updateWhere (fun r => r.index ≤ batchIndex ∧
        r.finalizedBlockNumber = none ∧ r.revertedBlockNumber = none)
      (fun r => { r with finalizedBlockNumber := some blockNumber }) (fun _ => rfl) }

def finalizedWithStatus (status : BatchStatus) (n : ℕ) (r : BatchCommitRow) : Bool :=
  r.finalizedBlockNumber.any (· ≤ n) && r.status = status

def withFinalized (db : Db) (n : ℕ) : Db :=
  { db with
    batchCommits := db.batchCommits.updateWhere (finalizedWithStatus .consolidated n)
      (fun r => { r with status := .finalized }) (fun _ => rfl) }

def highestToFinalize (db : Db) (n : ℕ) : Option BatchCommitRow :=
  highest BatchCommitRow.index (db.batchCommits.select (finalizedWithStatus .consolidated n))

theorem withFinalized_of_none {db : Db} {n : ℕ} (h : db.highestToFinalize n = none) :
    (db.withFinalized n).batchCommits = db.batchCommits := by
  have hnil := (highest_eq_none _ _).1 h
  refine Table.ext_rows ((List.map_congr_left ?_).trans (List.map_id _))
  intro r hr
  have hnot : finalizedWithStatus .consolidated n r = false := by
    by_contra hsel
    have hmem := (db.batchCommits.mem_select _ r).2 ⟨hr, Bool.of_not_eq_false hsel⟩
    rw [hnil] at hmem
    cases hmem
  rw [hnot]
  rfl

def lastBlockOf (db : Db) (hash : B256) : Option L2BlockRow :=
  highest L2BlockRow.blockNumber (db.l2Blocks.select (fun r => r.batchHash = hash))

def finalizeConsolidatedBatches (db : Db) (n : ℕ) : Except Abort (Db × Option BlockInfo) :=
  match db.highestToFinalize n with
  | none => .ok (db, none)
  | some batch =>
    match db.lastBlockOf batch.hash with
    | none => .error (.panic "Finalized batch must have at least one L2 block.")
    | some block => .ok (db.withFinalized n, some block.blockInfo)

def fetchAndUpdate (db : Db) (p : BatchCommitRow → Bool) : Db × List BatchInfo :=
  ({ db with
    batchCommits := db.batchCommits.updateWhere p (fun r => { r with status := .processing })
      (fun _ => rfl) },
    (orderBy BatchCommitRow.index (db.batchCommits.select p)).map (fun r => ⟨r.index, r.hash⟩))

def fetchAndUpdateUnprocessedFinalizedBatches (db : Db) (n : ℕ) : Db × List BatchInfo :=
  db.fetchAndUpdate (finalizedWithStatus .committed n)

def fetchAndUpdateUnprocessedCommittedBatches (db : Db) : Db × List BatchInfo :=
  db.fetchAndUpdate (fun r => r.status = .committed)

def deleteBatchesGtBlockNumber (db : Db) (n : ℕ) : Db × ℕ :=
  let removed := db.batchCommits.select (fun r => n < r.blockNumber)
  ({ db with
    batchCommits := db.batchCommits.deleteWhere (fun r => n < r.blockNumber)
    l2Blocks := db.l2Blocks.deleteWhere (fun r => r.batchHash ∈ removed.map (·.hash)) },
    removed.length)

/-- A queue index that is already stored is left alone; the other unique columns are not. -/
def insertL1Message (db : Db) (m : L1MessageEnvelope) : Except Abort Db :=
  let new := L1MessageRow.ofEnvelope m
  if h : new.queueIndex ∈ db.l1Messages.keys then .ok db
  else if ∃ r ∈ db.l1Messages, r.hash = new.hash then
    .error (.error (.databaseError "UNIQUE constraint failed: l1_message.hash"))
  else if ∃ r ∈ db.l1Messages, r.queueHash.isSome ∧ r.queueHash = new.queueHash then
    .error (.error (.databaseError "UNIQUE constraint failed: l1_message.queue_hash"))
  else .ok { db with l1Messages := db.l1Messages.insertNew new h }

theorem insertL1Message_ok {db db' : Db} {m : L1MessageEnvelope}
    (h : db.insertL1Message m = .ok db') :
    db' = db ∨ ∃ hnew, db' =
      { db with l1Messages := db.l1Messages.insertNew (.ofEnvelope m) hnew } := by
  simp only [insertL1Message] at h
  split at h
  · cases h
    exact Or.inl rfl
  rename_i hnew
  split at h
  · cases h
  split at h
  · cases h
  · cases h
    exact Or.inr ⟨hnew, rfl⟩

def updateSkippedL1Messages (db : Db) (indexes : List ℕ) : Db :=
  { db with
    l1Messages := db.l1Messages.updateWhere (fun r => r.queueIndex ∈ indexes)
      (fun r => { r with skipped := true }) (fun _ => rfl) }

def deleteL1MessagesGt (db : Db) (n : ℕ) : Db × List L1MessageEnvelope :=
  ({ db with l1Messages := db.l1Messages.deleteWhere (fun r => n < r.l1BlockNumber) },
    (db.l1Messages.select (fun r => n < r.l1BlockNumber)).map L1MessageRow.toEnvelope)

def upsertBlock (batch : BatchInfo) (rows : Table L2BlockRow.key) (b : BlockInfo) :
    Table L2BlockRow.key :=
  rows.upsert (.ofBlock b batch)
    (fun r => { r with blockNumber := b.number, batchIndex := batch.index }) (fun _ => rfl)

def withBlocks (db : Db) (blocks : List BlockInfo) (batch : BatchInfo) : Db :=
  { db with l2Blocks := blocks.foldl (upsertBlock batch) db.l2Blocks }

def insertBlocks (db : Db) (blocks : List BlockInfo) (batch : BatchInfo) : Except Abort Db :=
  if blocks = [] then .ok db
  else if ∃ r ∈ db.batchCommits, r.hash = batch.hash then .ok (db.withBlocks blocks batch)
  else .error (.error (.databaseError "FOREIGN KEY constraint failed"))

def allHashes (blocks : List L2BlockInfoWithL1Messages) : List B256 :=
  blocks.flatMap (·.l1Messages)

theorem mem_allHashes (blocks : List L2BlockInfoWithL1Messages) (hash : B256) :
    hash ∈ allHashes blocks ↔ ∃ b ∈ blocks, hash ∈ b.l1Messages := List.mem_flatMap

/-- `CASE WHEN hash IN (..) THEN number .. END`: the first block that lists the hash. -/
def caseNumber (blocks : List L2BlockInfoWithL1Messages) (hash : B256) : Option ℕ :=
  (blocks.find? (fun b => hash ∈ b.l1Messages)).map (·.blockInfo.number)

theorem caseNumber_of_mem (blocks : List L2BlockInfoWithL1Messages) (hash : B256)
    (h : hash ∈ allHashes blocks) :
    ∃ b ∈ blocks, hash ∈ b.l1Messages ∧ caseNumber blocks hash = some b.blockInfo.number := by
  obtain ⟨c, hc, hm⟩ := (mem_allHashes blocks hash).1 h
  have hs : (blocks.find? (fun b => hash ∈ b.l1Messages)).isSome :=
    List.find?_isSome.2 ⟨c, hc, decide_eq_true hm⟩
  obtain ⟨b, hb⟩ := Option.isSome_iff_exists.1 hs
  have hmem := List.find?_some hb
  refine ⟨b, List.mem_of_find?_eq_some hb, of_decide_eq_true hmem, ?_⟩
  rw [caseNumber, hb, Option.map_some]

def updateL1MessagesWithL2Blocks (db : Db) (blocks : List L2BlockInfoWithL1Messages) : Db :=
  { db with
    l1Messages := db.l1Messages.updateWhere (fun r => r.hash ∈ allHashes blocks)
      (fun r => { r with l2BlockNumber := caseNumber blocks r.hash }) (fun _ => rfl) }

def unmapWhere (db : Db) (p : ℕ → Bool) : Db :=
  { db with
    l1Messages := db.l1Messages.updateWhere (fun r => r.l2BlockNumber.any p)
      (fun r => { r with l2BlockNumber := none }) (fun _ => rfl) }

theorem kept_of_mem_unmapWhere {db : Db} {p : ℕ → Bool} {r : L1MessageRow}
    (hr : r ∈ (db.unmapWhere p).l1Messages) {n : ℕ} (hn : r.l2BlockNumber = some n) :
    p n = false := by
  obtain ⟨q, -, ⟨-, rfl⟩ | ⟨hkept, rfl⟩⟩ := Table.cases_of_mem_update hr
  · cases hn
  · rw [hn] at hkept
    exact hkept

/-- Without a block number the mappings above the safe block are purged. -/
def purgeL1MessageToL2BlockMappings (db : Db) (blockNumber : Option ℕ) : Except Abort Db :=
  match blockNumber with
  | some n => .ok (db.unmapWhere (n ≤ ·))
  | none => do
    let (safe, _) ← db.getLatestSafeL2Info
    return db.unmapWhere (safe.number < ·)

def updateL1MessagesFromL2Blocks (db : Db) (blocks : List L2BlockInfoWithL1Messages) :
    Except Abort Db := do
  let purged ← db.purgeL1MessageToL2BlockMappings (blocks.head?.map (·.blockInfo.number))
  return purged.updateL1MessagesWithL2Blocks blocks

end Db
end RollupNode
