import RollupNode.DatabaseTables
import Mathlib.Data.Prod.Lex

set_option autoImplicit false

/-! `DatabaseReadOperations`. A failed statement is returned, a failed `expect` ends the task. -/
namespace RollupNode
open RelationalTable

inductive NotIncludedKey where
  | finalizedWithBlockDepth (depth : ℕ)
  | blockDepth (depth : ℕ)
  deriving DecidableEq, Repr

inductive L1MessageKey where
  | queueIndex (index : ℕ)
  | queueHash (hash : B256)
  | transactionHash (hash : B256)
  | blockNumber (number : ℕ)
  | notIncluded (key : NotIncludedKey)
  deriving DecidableEq, Repr

inductive DatabaseError where
  | databaseError (message : String)
  | l1MessageNotFound (key : L1MessageKey)
  | genesisMismatch (configured stored : B256)
  | genesisMissing (configured : B256)
  | genesisAmbiguous (configured seeded : B256)
  deriving DecidableEq, Repr

inductive Abort where
  | error (e : DatabaseError)
  | panic (message : String)
  deriving DecidableEq, Repr

namespace Db

def getBatchByIndex (db : Db) (batchIndex : ℕ) : Option BatchCommitData :=
  (db.batchCommits.rows.find? (fun r => r.index = batchIndex ∧ r.revertedBlockNumber = none)).map
    BatchCommitRow.toCommitData

def getLatestSafeL2Info (db : Db) : Except Abort (BlockInfo × BatchInfo) :=
  match highest L2BlockRow.blockNumber (db.l2Blocks.select (fun r => !r.reverted)) with
  | some r => .ok (r.blockInfo, r.batchInfo)
  | none => .error (.panic "there should always be at least the genesis block in the database")

theorem getLatestSafeL2Info_spec {db : Db} {block : BlockInfo} {batch : BatchInfo}
    (h : db.getLatestSafeL2Info = .ok (block, batch)) :
    ∃ r ∈ db.l2Blocks, r.reverted = false ∧ block = r.blockInfo ∧ batch = r.batchInfo ∧
      ∀ q ∈ db.l2Blocks, q.reverted = false → q.blockNumber ≤ r.blockNumber := by
  unfold getLatestSafeL2Info at h
  split at h
  · rename_i r hr
    cases h
    obtain ⟨hmem, hlive⟩ := (db.l2Blocks.mem_select _ r).1 (highest_mem hr)
    refine ⟨r, hmem, by simpa using hlive, rfl, rfl, ?_⟩
    intro q hq hqlive
    exact le_highest hr ((db.l2Blocks.mem_select _ q).2 ⟨hq, by simpa using hqlive⟩)
  · cases h

theorem getLatestSafeL2Info_ok_iff (db : Db) :
    (∃ info, db.getLatestSafeL2Info = .ok info) ↔ ∃ r ∈ db.l2Blocks, r.reverted = false := by
  constructor
  · rintro ⟨⟨block, batch⟩, h⟩
    obtain ⟨r, hr, hlive, -⟩ := getLatestSafeL2Info_spec h
    exact ⟨r, hr, hlive⟩
  · rintro ⟨r, hr, hlive⟩
    unfold getLatestSafeL2Info
    split
    · exact ⟨_, rfl⟩
    · rename_i hnone
      have hsel := (db.l2Blocks.mem_select (fun r => !r.reverted) r).2 ⟨hr, by simpa using hlive⟩
      rw [(highest_eq_none _ _).1 hnone] at hsel
      cases hsel

def messagesFrom (db : Db) (p : L1MessageRow → Bool) (n : ℕ) : List L1MessageEnvelope :=
  ((orderBy L1MessageRow.queueIndex (db.l1Messages.select p)).take n).map
    L1MessageRow.toEnvelope

def lastIncludedBefore (db : Db) (number : ℕ) : Option L1MessageRow :=
  highest (fun r => toLex (r.l2BlockNumber.getD 0, r.queueIndex))
    (db.l1Messages.select (fun r => r.l2BlockNumber.any (· < number)))

def notIncludedUpTo (db : Db) (target n : ℕ) : List L1MessageEnvelope :=
  db.messagesFrom (fun r => r.l1BlockNumber ≤ target ∧ r.l2BlockNumber = none ∧ r.skipped = false) n

def getNL1Messages (db : Db) (start : Option L1MessageKey) (n : ℕ) :
    Except Abort (List L1MessageEnvelope) :=
  match start with
  | some (.queueIndex i) => .ok (db.messagesFrom (fun r => i ≤ r.queueIndex) n)
  | some (.transactionHash h) =>
    match db.l1Messages.rows.find? (fun r => r.hash = h) with
    | some record => .ok (db.messagesFrom (fun r => record.queueIndex ≤ r.queueIndex) n)
    | none => .error (.error (.l1MessageNotFound (.transactionHash h)))
  | some (.queueHash h) =>
    match db.l1Messages.rows.find? (fun r => r.queueHash = some h) with
    | some record => .ok (db.messagesFrom (fun r => record.queueIndex ≤ r.queueIndex) n)
    | none => .error (.error (.l1MessageNotFound (.queueHash h)))
  | some (.blockNumber number) =>
    match db.lastIncludedBefore number with
    | some record =>
      .ok (db.messagesFrom (fun r => record.queueIndex + 1 ≤ r.queueIndex ∧ r.skipped = false) n)
    | none => .ok (db.messagesFrom (fun r => r.skipped = false) n)
  | some (.notIncluded (.finalizedWithBlockDepth depth)) =>
    if depth ≤ db.l1FinalizedBlock then .ok (db.notIncludedUpTo (db.l1FinalizedBlock - depth) n)
    else .ok []
  | some (.notIncluded (.blockDepth depth)) =>
    if depth ≤ db.l1LatestBlock then .ok (db.notIncludedUpTo (db.l1LatestBlock - depth) n)
    else .ok []
  | none => .ok (db.messagesFrom (fun _ => true) n)

end Db
end RollupNode
