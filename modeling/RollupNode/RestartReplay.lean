import RollupNode.ColumnReplay
import RollupNode.PayloadJobs
import RollupNode.WatcherStart

set_option autoImplicit false

/-! The last indexed L1 block is delivered again after a restart. -/
namespace RollupNode
open RelationalTable GuardedRuns ExceptTraversal

inductive L1Notification.InBlock (block : BlockInfo) : L1Notification → Prop where
  | commit (data : BatchCommitData) (hblock : data.blockNumber = block.number) :
      InBlock block (.batchCommit block data)
  | finalization (hash : B256) (index : ℕ) : InBlock block (.batchFinalization hash index block)
  | revert (info : BatchInfo) : InBlock block (.batchRevert info block)
  | revertRange (first last : ℕ) : InBlock block (.batchRevertRange first last block)
  | message (message : TxL1Message) (timestamp : ℕ) :
      InBlock block (.l1Message message block timestamp)

def L1Notification.columnEvent : L1Notification → Option ColumnEvent
  | .batchCommit _ data => some (.commit data.hash data.index)
  | .batchFinalization _ index _ => some (.finalize index)
  | .batchRevert info _ => some (.revert info.index info.index)
  | .batchRevertRange first last _ => some (.revert first last)
  | _ => none

theorem L1Notification.InBlock.event_or_message {block : BlockInfo} {n : L1Notification}
    (h : n.InBlock block) : n.columnEvent ≠ none ∨
      ∃ message timestamp, n = .l1Message message block timestamp := by
  cases h with
  | commit data hblock => exact Or.inl (Option.some_ne_none _)
  | finalization hash index => exact Or.inl (Option.some_ne_none _)
  | revert info => exact Or.inl (Option.some_ne_none _)
  | revertRange first last => exact Or.inl (Option.some_ne_none _)
  | message message timestamp => exact Or.inr ⟨message, timestamp, rfl⟩

namespace Db

def commitOr {ε : Type} (db : Db) : Except ε Db → Db
  | .ok db' => db'
  | .error _ => db

def deliver (config : ChainOrchestratorConfig) (db : Db) : L1Notification → Db
  | .batchCommit block data => db.commitOr (Node.commitBatch db block data)
  | .batchFinalization _ index block =>
    db.commitOr ((Node.finalizedByBatch db index block).map Prod.fst)
  | .batchRevert info block =>
    db.commitOr ((Node.revertBatches db info.index info.index block).map Prod.fst)
  | .batchRevertRange first last block =>
    db.commitOr ((Node.revertBatches db first last block).map Prod.fst)
  | .l1Message message block _ =>
    match computeL1MessageQueueHash config db message with
    | .ok queueHash => db.commitOr (storeL1Message db ⟨message, block.number, none, queueHash⟩ block)
    | .error _ => db
  | _ => db

end Db

variable {block : BlockInfo}

theorem Node.handleL1Notification_db {n : L1Notification} (hn : n.InBlock block) (node : Node)
    (config : ChainOrchestratorConfig) (client : L2Client) (reply : Reply ForkchoiceUpdated) :
    (Faulty.handleL1Notification node config noFaults client reply n).1.db =
      node.db.deliver config n := by
  have hrevert : ∀ first last b, (node.handleBatchRevert first last b reply).1.db =
      node.db.commitOr ((revertBatches node.db first last b).map Prod.fst) := by
    intro first last b
    unfold handleBatchRevert
    cases revertBatches node.db first last b with
    | error e => rfl
    | ok reverted =>
      simp only
      split
      · rw [updateFcsAfterUnwind_node]
        rfl
      · rfl
  cases hn with
  | commit data hblock =>
    change (node.handleBatchCommit block data).1.db =
      node.db.commitOr (commitBatch node.db block data)
    unfold handleBatchCommit
    cases commitBatch node.db block data with
    | error e => rfl
    | ok db =>
      simp only
      split <;> rfl
  | finalization hash index =>
    change (node.handleBatchFinalization index block).1.db =
      node.db.commitOr ((finalizedByBatch node.db index block).map Prod.fst)
    unfold handleBatchFinalization
    cases finalizedByBatch node.db index block with
    | error e => rfl
    | ok finalized => rfl
  | revert info => exact hrevert info.index info.index block
  | revertRange first last => exact hrevert first last block
  | message message timestamp =>
    change (node.handleL1Message config message block).1.db = _
    rw [Db.deliver]
    unfold handleL1Message
    cases computeL1MessageQueueHash config node.db message with
    | error e => rfl
    | ok queueHash =>
      simp only
      cases storeL1Message node.db ⟨message, block.number, none, queueHash⟩ block with
      | error e => rfl
      | ok db => rfl

namespace Db

def indexedBatches (db : Db) : IndexedBatches := ⟨db.batchColumns, db.l2Blocks⟩

def TakesBlock (block : BlockInfo) (db : Db) : Prop :=
  block.number ≤ db.l1FinalizedBlock ∨
    ∀ r ∈ db.l1Blocks, r.hash = block.hash → r.number = block.number

variable {db : Db} {block : BlockInfo}

theorem insertL1BlockInfo_of_takesBlock (h : db.TakesBlock block) :
    ∃ l1Blocks, db.insertL1BlockInfo block = .ok { db with l1Blocks := l1Blocks } ∧
      TakesBlock block { db with l1Blocks := l1Blocks } := by
  unfold insertL1BlockInfo
  split
  · exact ⟨db.l1Blocks, rfl, h⟩
  · rename_i hnew
    have hfree := h.resolve_left hnew
    rw [if_neg (by
      rintro ⟨r, hr, hhash, hnumber⟩
      exact hnumber (hfree r hr hhash))]
    refine ⟨_, rfl, Or.inr ?_⟩
    intro r hr hhash
    rcases Table.cases_of_mem_upsert _ _ _ _ hr with ⟨hr, -⟩ | ⟨-, rfl⟩ | ⟨q, -, hq, rfl⟩
    · exact hfree r hr hhash
    · rfl
    · exact hq

theorem followsLive_iff (index : ℕ) :
    FollowsLive db.batchColumns index ↔ index ≠ 0 ∧ db.getBatchByIndex (index - 1) ≠ none := by
  refine and_congr_right (fun _ => ?_)
  simp only [getBatchByIndex, ne_eq, Option.map_eq_none_iff, List.find?_eq_none, decide_eq_true_eq,
    not_forall, not_not, batchColumns, List.mem_map, exists_exists_and_eq_and, exists_prop]
  rfl

theorem columns_update (rows : List BatchCommitRow) (p : BatchCommitRow → Bool)
    (f : BatchCommitRow → BatchCommitRow) (g : BatchColumns → BatchColumns)
    (h : ∀ r, (if p r then f r else r).columns = g r.columns) :
    (rows.map (fun r => if p r then f r else r)).map BatchCommitRow.columns =
      (rows.map BatchCommitRow.columns).map g := by
  rw [List.map_map, List.map_map]
  exact List.map_congr_left (fun r _ => h r)

theorem batchColumns_insertBatch (db : Db) (data : BatchCommitData) :
    (db.insertBatch data).batchColumns =
      if data.hash ∈ db.batchColumns.map BatchColumns.hash then
        db.batchColumns.map (BatchColumns.recommit data.blockNumber data.hash data.index)
      else db.batchColumns ++ [.committed data.blockNumber data.hash data.index] := by
  have hkeys : db.batchColumns.map BatchColumns.hash = db.batchCommits.keys := by
    rw [batchColumns, List.map_map]
    rfl
  rw [hkeys]
  change (Table.upsert db.batchCommits _ _ _).rows.map _ = _
  unfold Table.upsert
  split
  · rename_i hmem
    rw [if_pos (show data.hash ∈ db.batchCommits.keys from hmem)]
    refine columns_update _ _ _ _ ?_
    intro r
    by_cases hhash : r.hash = data.hash
    · simp [BatchColumns.recommit, BatchCommitRow.columns, BatchCommitRow.ofCommitData, hhash]
    · simp [BatchColumns.recommit, BatchCommitRow.columns, BatchCommitRow.ofCommitData, hhash]
  · rename_i hmem
    rw [if_neg (show data.hash ∉ db.batchCommits.keys from hmem)]
    change List.map _ (_ ++ [_]) = _
    rw [List.map_append]
    rfl

theorem batchColumns_finalizeBatchesUpToIndex (db : Db) (index n : ℕ) :
    (db.finalizeBatchesUpToIndex index n).batchColumns =
      db.batchColumns.map (BatchColumns.finalizeUpTo n index) := by
  refine columns_update _ _ _ _ ?_
  intro r
  by_cases hopen : r.index ≤ index ∧ r.finalizedBlockNumber = none ∧ r.revertedBlockNumber = none
  · simp [BatchColumns.finalizeUpTo, BatchCommitRow.columns, hopen]
  · rw [if_neg (by simpa using hopen)]
    exact (if_neg hopen).symm

theorem batchColumns_fetchAndUpdate (db : Db) (p : BatchCommitRow → Bool) :
    (db.fetchAndUpdate p).1.batchColumns = db.batchColumns := by
  refine (columns_update db.batchCommits.rows p _ id ?_).trans (List.map_id _)
  intro r
  split <;> rfl

theorem batchColumns_revertRange (db : Db) (first last : ℕ) (block : BlockInfo) :
    (db.setBatchRevertBlockNumberForBatchRange first last block).batchColumns =
      db.batchColumns.map (BatchColumns.revertRange block.number first last) := by
  rw [batchColumns, setBatchRevertBlockNumberForBatchRange_batchCommits]
  refine columns_update _ _ _ _ ?_
  intro r
  by_cases hin : first ≤ r.index ∧ r.index ≤ last ∧ r.revertedBlockNumber = none
  · simp [BatchColumns.revertRange, BatchCommitRow.columns, inRevertedRange, hin]
  · rw [if_neg (by simpa [inRevertedRange] using hin)]
    exact (if_neg hin).symm

theorem l2Blocks_revertRange (db : Db) (first last : ℕ) (block : BlockInfo) :
    (db.setBatchRevertBlockNumberForBatchRange first last block).l2Blocks =
      db.indexedBatches.revertedBlocks first last := by
  have hhashes : (db.batchCommits.select (inRevertedRange first last)).map (·.hash) =
      (db.batchColumns.filter (IndexedBatches.inRange first last)).map BatchColumns.hash := by
    rw [batchColumns, List.filter_map, List.map_map]
    rfl
  unfold setBatchRevertBlockNumberForBatchRange markReverted IndexedBatches.revertedBlocks
  simp only [hhashes]
  rfl

/-- What the delivery of a notification does: the step of its event on the batches, and nothing
to the messages if it has one. -/
structure Delivers (block : BlockInfo) (event : Option ColumnEvent) (db db' : Db) : Prop where
  batches : db'.indexedBatches =
    event.elim db.indexedBatches (db.indexedBatches.step block.number)
  messages : event ≠ none → db'.l1Messages = db.l1Messages
  takes : db'.TakesBlock block

theorem deliver_commit (config : ChainOrchestratorConfig) {data : BatchCommitData}
    (hblock : data.blockNumber = block.number) (htakes : db.TakesBlock block) :
    Delivers block (some (.commit data.hash data.index)) db
      (db.deliver config (.batchCommit block data)) := by
  have hstep : db.indexedBatches.step block.number (.commit data.hash data.index) =
      ⟨columnStep block.number db.batchColumns (.commit data.hash data.index), db.l2Blocks⟩ := rfl
  rw [deliver, Node.commitBatch]
  rw [columnStep] at hstep
  by_cases hfollows : FollowsLive db.batchColumns data.index
  · obtain ⟨hindex, hprevious⟩ := (followsLive_iff data.index).1 hfollows
    obtain ⟨l1Blocks, hinsert, htaken⟩ :=
      insertL1BlockInfo_of_takesBlock (show (db.insertBatch data).TakesBlock block from htakes)
    rw [if_pos hfollows] at hstep
    rw [if_neg hindex, if_neg hprevious, hinsert]
    refine ⟨?_, fun _ => rfl, htaken⟩
    rw [Option.elim_some, hstep, ← hblock]
    exact IndexedBatches.ext (batchColumns_insertBatch db data) rfl
  · rw [if_neg hfollows] at hstep
    by_cases hindex : data.index = 0
    · rw [if_pos hindex]
      exact ⟨hstep.symm, fun _ => rfl, htakes⟩
    · have hprevious : db.getBatchByIndex (data.index - 1) = none := by
        by_contra hsome
        exact hfollows ((followsLive_iff data.index).2 ⟨hindex, hsome⟩)
      rw [if_neg hindex, if_pos hprevious]
      exact ⟨hstep.symm, fun _ => rfl, htakes⟩

theorem deliver_finalization (config : ChainOrchestratorConfig) (hash : B256) (index : ℕ)
    (htakes : db.TakesBlock block) :
    Delivers block (some (.finalize index)) db
      (db.deliver config (.batchFinalization hash index block)) := by
  obtain ⟨l1Blocks, hinsert, htaken⟩ := insertL1BlockInfo_of_takesBlock htakes
  have hcolumns := batchColumns_finalizeBatchesUpToIndex db index block.number
  rw [deliver, Node.finalizedByBatch, hinsert]
  simp only [bind, Except.bind, pure, Except.pure, Except.map, commitOr]
  split
  · refine ⟨IndexedBatches.ext ?_ rfl, fun _ => rfl, htaken⟩
    exact (batchColumns_fetchAndUpdate _ _).trans hcolumns
  · exact ⟨IndexedBatches.ext hcolumns rfl, fun _ => rfl, htaken⟩

theorem deliver_revert (first last : ℕ) (htakes : db.TakesBlock block) :
    Delivers block (some (.revert first last)) db
      (db.commitOr ((Node.revertBatches db first last block).map Prod.fst)) := by
  obtain ⟨l1Blocks, hinsert, htaken⟩ := insertL1BlockInfo_of_takesBlock htakes
  have hblocks : (setBatchRevertBlockNumberForBatchRange { db with l1Blocks := l1Blocks }
      first last block).l2Blocks = db.indexedBatches.revertedBlocks first last :=
    l2Blocks_revertRange { db with l1Blocks := l1Blocks } first last block
  have hsafe := getLatestSafeL2Info_ok_iff
    (setBatchRevertBlockNumberForBatchRange { db with l1Blocks := l1Blocks } first last block)
  rw [hblocks] at hsafe
  have hstep : db.indexedBatches.step block.number (.revert first last) = if _ then _ else _ := rfl
  rw [Node.revertBatches, hinsert]
  simp only [bind, Except.bind]
  cases hlatest : getLatestSafeL2Info
      (setBatchRevertBlockNumberForBatchRange { db with l1Blocks := l1Blocks } first last block) with
  | error e =>
    rw [if_neg (fun hlive => by
      obtain ⟨info, hinfo⟩ := hsafe.2 hlive
      cases hlatest.symm.trans hinfo)] at hstep
    exact ⟨hstep.symm, fun _ => rfl, htakes⟩
  | ok info =>
    rw [if_pos (hsafe.1 ⟨info, hlatest⟩)] at hstep
    refine ⟨?_, fun _ => rfl, htaken⟩
    rw [Option.elim_some, hstep]
    refine IndexedBatches.ext ?_ hblocks
    exact batchColumns_revertRange { db with l1Blocks := l1Blocks } first last block

theorem commitOr_storeL1Message {e : L1MessageEnvelope} (htakes : db.TakesBlock block) :
    (db.commitOr (storeL1Message db e block)).indexedBatches = db.indexedBatches ∧
      (db.commitOr (storeL1Message db e block)).l1Messages =
        (if hasPreviousL1Message db e.transaction.queueIndex = .ok true then
          db.commitOr (db.insertL1Message e) else db).l1Messages ∧
      (db.commitOr (storeL1Message db e block)).TakesBlock block := by
  unfold storeL1Message
  split
  · rename_i hprevious
    rw [if_neg (by rw [hprevious]; exact fun h => by cases h)]
    exact ⟨rfl, rfl, htakes⟩
  · rename_i hprevious
    rw [if_neg (by rw [hprevious]; exact fun h => by cases h)]
    exact ⟨rfl, rfl, htakes⟩
  · rename_i hprevious
    rw [if_pos hprevious]
    cases hinsert : db.insertL1Message e with
    | error er => exact ⟨rfl, rfl, htakes⟩
    | ok inserted =>
      have hkept : inserted.indexedBatches = db.indexedBatches ∧ inserted.TakesBlock block := by
        rcases insertL1Message_ok hinsert with rfl | ⟨hnew, rfl⟩
        · exact ⟨rfl, htakes⟩
        · exact ⟨rfl, htakes⟩
      obtain ⟨l1Blocks, hblock, htaken⟩ := insertL1BlockInfo_of_takesBlock hkept.2
      simp only [Except.bind, hblock, Except.mapError, commitOr]
      exact ⟨hkept.1, trivial, htaken⟩

theorem delivers {n : L1Notification} (hn : n.InBlock block) (config : ChainOrchestratorConfig)
    (htakes : db.TakesBlock block) : Delivers block n.columnEvent db (db.deliver config n) := by
  cases hn with
  | commit data hblock => exact deliver_commit config hblock htakes
  | finalization hash index => exact deliver_finalization config hash index htakes
  | revert info => exact deliver_revert info.index info.index htakes
  | revertRange first last => exact deliver_revert first last htakes
  | message message timestamp =>
    rw [deliver]
    split
    · obtain ⟨hbatches, -, htaken⟩ := commitOr_storeL1Message htakes
      exact ⟨hbatches, fun hevent => absurd rfl hevent, htaken⟩
    · exact ⟨rfl, fun _ => rfl, htakes⟩

theorem deliver_message_congr {db' : Db} (config : ChainOrchestratorConfig) (message : TxL1Message)
    (timestamp : ℕ) (htakes : db.TakesBlock block) (htakes' : db'.TakesBlock block)
    (hsame : db.l1Messages = db'.l1Messages) :
    (db.deliver config (.l1Message message block timestamp)).l1Messages =
      (db'.deliver config (.l1Message message block timestamp)).l1Messages := by
  have hhash : computeL1MessageQueueHash config db message =
      computeL1MessageQueueHash config db' message := by
    unfold computeL1MessageQueueHash getNL1Messages messagesFrom
    rw [hsame]
  have hprevious : ∀ i, hasPreviousL1Message db i = hasPreviousL1Message db' i := by
    intro i
    unfold hasPreviousL1Message getNL1Messages messagesFrom
    rw [hsame]
  have hinsert : ∀ e, (db.commitOr (db.insertL1Message e)).l1Messages =
      (db'.commitOr (db'.insertL1Message e)).l1Messages := by
    intro e
    cases db
    cases db'
    cases hsame
    unfold insertL1Message
    simp only
    split
    · rfl
    · split
      · rfl
      · split
        · rfl
        · rfl
  rw [deliver, deliver, hhash]
  split
  · rw [(commitOr_storeL1Message htakes).2.1, (commitOr_storeL1Message htakes').2.1, hprevious]
    split
    · exact hinsert _
    · exact hsame
  · exact hsame

theorem deliver_l1Messages_congr {n : L1Notification} {db' : Db} (hn : n.InBlock block)
    (config : ChainOrchestratorConfig) (htakes : db.TakesBlock block)
    (htakes' : db'.TakesBlock block) (hsame : db.l1Messages = db'.l1Messages) :
    (db.deliver config n).l1Messages = (db'.deliver config n).l1Messages := by
  rcases hn.event_or_message with hevent | ⟨message, timestamp, rfl⟩
  · rw [(delivers hn config htakes).messages hevent, (delivers hn config htakes').messages hevent,
      hsame]
  · exact deliver_message_congr config message timestamp htakes htakes' hsame

/-- The message is stored, or it will be: its predecessor is stored, and no other message has its
hash or its queue hash. -/
def TakesMessage (config : ChainOrchestratorConfig) (db : Db) (message : TxL1Message) : Prop :=
  message.queueIndex ∈ db.l1Messages.keys ∨
    hasPreviousL1Message db message.queueIndex = .ok true ∧
    (∀ r ∈ db.l1Messages, r.hash ≠ message.txHash) ∧
    ∃ queueHash, computeL1MessageQueueHash config db message = .ok queueHash ∧
      ∀ r ∈ db.l1Messages, r.queueHash.isSome → r.queueHash ≠ queueHash

theorem deliver_message_of_stored (config : ChainOrchestratorConfig) (htakes : db.TakesBlock block)
    (message : TxL1Message) (timestamp : ℕ) (h : message.queueIndex ∈ db.l1Messages.keys) :
    (db.deliver config (.l1Message message block timestamp)).l1Messages = db.l1Messages := by
  rw [deliver]
  split
  · rw [(commitOr_storeL1Message htakes).2.1]
    split
    · rename_i queueHash _ _
      have hkeep : db.insertL1Message ⟨message, block.number, none, queueHash⟩ = .ok db :=
        dif_pos h
      rw [hkeep]
      rfl
    · rfl
  · rfl

theorem mem_keys_deliver_message (config : ChainOrchestratorConfig) (htakes : db.TakesBlock block)
    (message : TxL1Message) (timestamp : ℕ) (h : db.TakesMessage config message) :
    message.queueIndex ∈
      (db.deliver config (.l1Message message block timestamp)).l1Messages.keys := by
  by_cases hstored : message.queueIndex ∈ db.l1Messages.keys
  · rw [deliver_message_of_stored config htakes message timestamp hstored]
    exact hstored
  · obtain ⟨hprevious, hfresh, queueHash, hcompute, hqueue⟩ := h.resolve_left hstored
    rw [deliver, hcompute]
    simp only
    rw [(commitOr_storeL1Message htakes).2.1, if_pos hprevious]
    unfold insertL1Message
    simp only
    split
    · rename_i hkey
      exact absurd hkey hstored
    split
    · rename_i hused
      obtain ⟨r, hr, hhash⟩ := hused
      exact absurd hhash (hfresh r hr)
    split
    · rename_i hused
      obtain ⟨r, hr, hsome, hhash⟩ := hused
      exact absurd hhash (hqueue r hr hsome)
    · rename_i hnew _ _
      exact (Table.mem_keys _ _).2 ⟨_, (Table.mem_insertNew _ _ hnew _).2 (Or.inr rfl), rfl⟩

theorem mem_keys_deliver {n : L1Notification} (hn : n.InBlock block)
    (config : ChainOrchestratorConfig) (htakes : db.TakesBlock block) {i : ℕ}
    (h : i ∈ db.l1Messages.keys) :
    i ∈ (db.deliver config n).l1Messages.keys := by
  have hinsert : ∀ e, i ∈ (db.commitOr (db.insertL1Message e)).l1Messages.keys := by
    intro e
    cases hinserted : db.insertL1Message e with
    | error er => exact h
    | ok inserted =>
      rcases insertL1Message_ok hinserted with rfl | ⟨hnew, rfl⟩
      · exact h
      · obtain ⟨r, hr, hi⟩ := (Table.mem_keys _ _).1 h
        exact (Table.mem_keys _ _).2 ⟨r, (Table.mem_insertNew _ _ hnew _).2 (Or.inl hr), hi⟩
  rcases hn.event_or_message with hevent | ⟨message, timestamp, rfl⟩
  · rw [(delivers hn config htakes).messages hevent]
    exact h
  · rw [deliver]
    split
    · rw [(commitOr_storeL1Message htakes).2.1]
      split
      · exact hinsert _
      · exact h
    · exact h

structure SameRows (db db' : Db) : Prop where
  batches : db.indexedBatches = db'.indexedBatches
  messages : db.l1Messages = db'.l1Messages

/-- The event passes the checks of its handler that are not about the batch before it. -/
def PassesChecks (config : ChainOrchestratorConfig) (db : Db) (n : L1Notification) : Prop :=
  match n with
  | .l1Message message _ _ => db.TakesMessage config message
  | n => n.columnEvent.elim True db.indexedBatches.LeavesBlock

section
variable {db' : Db} {events : List L1Notification} (hevents : ∀ n ∈ events, n.InBlock block)
  (config : ChainOrchestratorConfig) (htakes : db.TakesBlock block)
include hevents htakes

theorem takesBlock_run :
    (run (deliver config) db events).TakesBlock block := by
  induction events generalizing db with
  | nil => exact htakes
  | cons n es ih =>
    exact ih (fun e he => hevents e (List.mem_cons_of_mem n he))
      (delivers (hevents n List.mem_cons_self) config htakes).takes

theorem indexedBatches_run :
    (run (deliver config) db events).indexedBatches =
      run (IndexedBatches.step block.number) db.indexedBatches
        (events.filterMap L1Notification.columnEvent) := by
  induction events generalizing db with
  | nil => rfl
  | cons n es ih =>
    obtain ⟨hbatches, -, htaken⟩ := delivers (hevents n List.mem_cons_self) config htakes
    have hrest := ih (fun e he => hevents e (List.mem_cons_of_mem n he)) htaken
    rw [hbatches] at hrest
    cases hevent : n.columnEvent with
    | none =>
      rw [hevent] at hrest
      rw [List.filterMap_cons_none hevent]
      exact hrest
    | some e =>
      rw [hevent] at hrest
      rw [List.filterMap_cons_some hevent]
      exact hrest

theorem l1Messages_run_congr
    (htakes' : db'.TakesBlock block) (hsame : db.l1Messages = db'.l1Messages) :
    (run (deliver config) db events).l1Messages = (run (deliver config) db' events).l1Messages := by
  induction events generalizing db db' with
  | nil => exact hsame
  | cons n es ih =>
    have hn := hevents n List.mem_cons_self
    exact ih (fun e he => hevents e (List.mem_cons_of_mem n he))
      (delivers hn config htakes).takes (delivers hn config htakes').takes
      (deliver_l1Messages_congr hn config htakes htakes' hsame)

theorem leavesBlock_run
    (h : Meets (deliver config) (PassesChecks config) db events) :
    Meets (IndexedBatches.step block.number) IndexedBatches.LeavesBlock db.indexedBatches
      (events.filterMap L1Notification.columnEvent) := by
  induction events generalizing db with
  | nil => trivial
  | cons n es ih =>
    have hn := hevents n List.mem_cons_self
    obtain ⟨hbatches, -, htaken⟩ := delivers hn config htakes
    have hrest := ih (fun e he => hevents e (List.mem_cons_of_mem n he)) htaken h.2
    rw [hbatches] at hrest
    have haccepts := h.1
    cases hn with
    | commit data hblock => exact ⟨trivial, hrest⟩
    | finalization hash index => exact ⟨trivial, hrest⟩
    | revert info => exact ⟨haccepts, hrest⟩
    | revertRange first last => exact ⟨haccepts, hrest⟩
    | message message timestamp => exact hrest

theorem stored_run
    (h : Meets (deliver config) (PassesChecks config) db events) {message : TxL1Message} {timestamp : ℕ}
    (hmem : .l1Message message block timestamp ∈ events) :
    message.queueIndex ∈ (run (deliver config) db events).l1Messages.keys := by
  induction events using List.reverseRecOn with
  | nil => cases hmem
  | append_singleton es n ih =>
    obtain ⟨hes, hn, -⟩ := (meets_append _ _ _ _ _).1 h
    have hall : ∀ e ∈ es, e.InBlock block := fun e he => hevents e (List.mem_append_left _ he)
    have htaken := takesBlock_run hall config htakes
    rw [run_append]
    rcases List.mem_append.1 hmem with hmem | hlast
    · exact mem_keys_deliver (hevents n (List.mem_append_right _ List.mem_cons_self)) config htaken
        (ih hall hes hmem)
    · rw [← List.mem_singleton.1 hlast] at hn ⊢
      exact mem_keys_deliver_message config htaken message timestamp hn

theorem l1Messages_run_of_stored
    (h : ∀ message timestamp, .l1Message message block timestamp ∈ events →
      message.queueIndex ∈ db.l1Messages.keys) :
    (run (deliver config) db events).l1Messages = db.l1Messages := by
  induction events generalizing db with
  | nil => rfl
  | cons n es ih =>
    have hn := hevents n List.mem_cons_self
    obtain ⟨-, hkept, htaken⟩ := delivers hn config htakes
    have hsame : (db.deliver config n).l1Messages = db.l1Messages := by
      rcases hn.event_or_message with hevent | ⟨message, timestamp, rfl⟩
      · exact hkept hevent
      · exact deliver_message_of_stored config htakes message timestamp
          (h message timestamp List.mem_cons_self)
    refine (ih (fun e he => hevents e (List.mem_cons_of_mem n he)) htaken ?_).trans hsame
    intro message timestamp hmem
    rw [hsame]
    exact h message timestamp (List.mem_cons_of_mem n hmem)

theorem sameRows_again {indexOf : B256 → ℕ}
    (haccepted : Meets (deliver config) (PassesChecks config) db events)
    (hreplayable : Replayable indexOf block.number db.batchColumns
      (events.filterMap L1Notification.columnEvent))
    (hrestarted : SameRows db' (run (deliver config) db events)) (htakes' : db'.TakesBlock block) :
    SameRows (run (deliver config) db' events) (run (deliver config) db events) where
  batches := by
    rw [indexedBatches_run hevents config htakes', hrestarted.batches,
      indexedBatches_run hevents config htakes]
    exact IndexedBatches.batches_again hreplayable
      (leavesBlock_run hevents config htakes haccepted)
  messages := by
    refine (l1Messages_run_of_stored hevents config htakes' ?_).trans hrestarted.messages
    intro message timestamp hmem
    rw [hrestarted.messages]
    exact stored_run hevents config htakes haccepted hmem

end

theorem SameRows.run_deliver {db' : Db} {events : List L1Notification} (h : SameRows db db')
    (hevents : ∀ n ∈ events, n.InBlock block) (config : ChainOrchestratorConfig)
    (htakes : db.TakesBlock block) (htakes' : db'.TakesBlock block) :
    SameRows (run (deliver config) db events) (run (deliver config) db' events) where
  batches := by
    rw [indexedBatches_run hevents config htakes, indexedBatches_run hevents config htakes',
      h.batches]
  messages := l1Messages_run_congr hevents config htakes htakes' h.messages

theorem sameRows_prepareL1WatcherStartInfo (db : Db) :
    SameRows db.prepareL1WatcherStartInfo.1 db := by
  refine ⟨IndexedBatches.ext ?_ rfl, rfl⟩
  refine (columns_update db.batchCommits.rows _ _ id ?_).trans (List.map_id _)
  intro r
  split <;> rfl

end Db

structure Delivery where
  notification : L1Notification
  client : L2Client
  reply : Reply ForkchoiceUpdated

def Node.deliver (config : ChainOrchestratorConfig) (node : Node) (d : Delivery) : Node :=
  (Faulty.handleL1Notification node config noFaults d.client d.reply d.notification).1

theorem Node.run_deliver_db (config : ChainOrchestratorConfig) (node : Node)
    (deliveries : List Delivery) (h : ∀ n ∈ deliveries.map Delivery.notification, n.InBlock block) :
    (run (Node.deliver config) node deliveries).db =
      run (Db.deliver config) node.db (deliveries.map Delivery.notification) := by
  induction deliveries generalizing node with
  | nil => rfl
  | cons d ds ih =>
    have hd := h d.notification List.mem_cons_self
    have hds := ih (node.deliver config d) (fun n hn => h n (List.mem_cons_of_mem _ hn))
    rw [Node.deliver, handleL1Notification_db hd] at hds
    exact hds

/-- The events of a block that may be delivered twice. All pass the checks of their handlers the
first time. No batch is committed after a revert that covers its index. No batch is reverted after
it was committed and finalized. A revert does not reach the batch before a committed one without
reaching that one, if a finalization came before. -/
structure ReplaySafe (config : ChainOrchestratorConfig) (block : BlockInfo) (db : Db)
    (events : List L1Notification) : Prop where
  inBlock : ∀ n ∈ events, n.InBlock block
  takesBlock : db.TakesBlock block
  accepted : Meets (Db.deliver config) (Db.PassesChecks config) db events
  batches : ∃ indexOf, Replayable indexOf block.number db.batchColumns
    (events.filterMap L1Notification.columnEvent)

/-- After a restart in the middle of a block, delivering its events from the first on leaves the
rows of delivering each once. -/
theorem rows_of_replayed_block {config : ChainOrchestratorConfig} {block : BlockInfo}
    {events : List L1Notification} {before restarted : Node} {first again once : List Delivery}
    (hsafe : ReplaySafe config block before.db events)
    (hfirst : first.map Delivery.notification <+: events)
    (hagain : again.map Delivery.notification = events)
    (honce : once.map Delivery.notification = events)
    (hrestarted : restarted.db =
      (run (Node.deliver config) before first).db.prepareL1WatcherStartInfo.1) :
    (run (Node.deliver config) restarted again).db.batchColumns =
        (run (Node.deliver config) before once).db.batchColumns ∧
      (run (Node.deliver config) restarted again).db.messageColumns =
        (run (Node.deliver config) before once).db.messageColumns := by
  obtain ⟨indexOf, hreplayable⟩ := hsafe.batches
  have hall := hsafe.inBlock
  rw [Node.run_deliver_db config restarted again (hagain ▸ hall), hagain,
    Node.run_deliver_db config before once (honce ▸ hall), honce, hrestarted,
    Node.run_deliver_db config before first (fun n hn => hall n (hfirst.subset hn))]
  -- the events delivered before the restart, and those that only come after it
  generalize first.map Delivery.notification = delivered at hfirst ⊢
  obtain ⟨rest, rfl⟩ := hfirst
  have hdelivered : ∀ n ∈ delivered, n.InBlock block :=
    fun n hn => hall n (List.mem_append_left _ hn)
  have hrest : ∀ n ∈ rest, n.InBlock block := fun n hn => hall n (List.mem_append_right _ hn)
  rw [List.filterMap_append] at hreplayable
  have htaken := Db.takesBlock_run hdelivered config hsafe.takesBlock
  have hprepared := Db.sameRows_prepareL1WatcherStartInfo
    (run (Db.deliver config) before.db delivered)
  have hagain := Db.sameRows_again hdelivered config hsafe.takesBlock
    ((meets_append _ _ _ _ _).1 hsafe.accepted).1 hreplayable.of_append hprepared htaken
  have hrows := hagain.run_deliver hrest config (Db.takesBlock_run hdelivered config htaken) htaken
  rw [run_append, run_append]
  exact ⟨congrArg IndexedBatches.columns hrows.batches, congrArg (fun t => t.rows.map
    L1MessageRow.columns) hrows.messages⟩

def unsynced (n : L1Notification) : Delivery := ⟨n, .ofChain [], validReply⟩

def nodeWithFirstBatch : Node := { Node.fresh 7 with db := committedInThird }

def restartedAfter (deliveries : List Delivery) : Node :=
  { Node.fresh 7 with
    db := (run (Node.deliver sampleConfig) nodeWithFirstBatch
      deliveries).db.prepareL1WatcherStartInfo.1 }

def revertedCommit : List L1Notification :=
  [.batchCommit ⟨4, 1004⟩ ⟨12, 2, 4, 0, [], none, none, none⟩,
    .l1Message ⟨0, 21000, 100⟩ ⟨4, 1004⟩ 48, .batchRevertRange 2 2 ⟨4, 1004⟩]

theorem replaySafe_revertedCommit :
    ReplaySafe sampleConfig ⟨4, 1004⟩ nodeWithFirstBatch.db revertedCommit where
  inBlock := by
    refine List.forall_mem_cons.2 ⟨.commit _ rfl, List.forall_mem_cons.2 ⟨.message _ _, ?_⟩⟩
    exact List.forall_mem_singleton.2 (.revertRange 2 2)
  takesBlock := Or.inr (fun r hr => by cases hr)
  accepted := by
    refine ⟨trivial, Or.inr ⟨rfl, ?_, none, rfl, ?_⟩, ?_, trivial⟩
    · intro r hr
      cases hr
    · intro r hr
      cases hr
    · exact ⟨_, List.mem_cons_self, rfl⟩
  batches := by
    refine ⟨fun hash => if hash = 12 then 2 else if hash = 11 then 1 else 0, by decide, ?_,
      ⟨?_, trivial, trivial⟩, ?_, ?_, ?_⟩
    · intro hash i hi
      rcases List.mem_cons.1 hi with heq | hi
      · cases heq
        rfl
      · cases List.mem_singleton.1 hi
    · change FollowsLive nodeWithFirstBatch.db.batchColumns 2
      decide
    · intro r hash i hsub
      cases hsub.eq_of_length rfl
    · intro hash i f r hsub
      have hlong : 3 ≤ 2 := hsub.length_le
      omega
    · intro f hash i r hsub
      have hlong : 3 ≤ 2 := hsub.length_le
      omega

/-- The node stops after the whole block. -/
theorem rows_of_replayed_revertedCommit :
    (run (Node.deliver sampleConfig) (restartedAfter (revertedCommit.map unsynced))
        (revertedCommit.map unsynced)).db.batchColumns =
      (run (Node.deliver sampleConfig) nodeWithFirstBatch
        (revertedCommit.map unsynced)).db.batchColumns ∧
    (run (Node.deliver sampleConfig) (restartedAfter (revertedCommit.map unsynced))
        (revertedCommit.map unsynced)).db.messageColumns =
      (run (Node.deliver sampleConfig) nodeWithFirstBatch
        (revertedCommit.map unsynced)).db.messageColumns :=
  rows_of_replayed_block replaySafe_revertedCommit (List.prefix_refl _) rfl rfl rfl

def replacedBatch : List L1Notification :=
  [.batchRevertRange 1 1 ⟨4, 1004⟩, .batchCommit ⟨4, 1004⟩ ⟨13, 1, 4, 0, [], none, none, none⟩]

/-- The revert delivered again hits the batch that replaced the reverted one. -/
theorem rows_of_replayed_replacedBatch :
    (run (Node.deliver sampleConfig) nodeWithFirstBatch
        (replacedBatch.map unsynced)).db.batchColumns =
      [⟨0, 0, 0, some 0, none⟩, ⟨11, 1, 3, none, some 4⟩, ⟨13, 1, 4, none, none⟩] ∧
    (run (Node.deliver sampleConfig) (restartedAfter (replacedBatch.map unsynced))
        (replacedBatch.map unsynced)).db.batchColumns =
      [⟨0, 0, 0, some 0, none⟩, ⟨11, 1, 3, none, some 4⟩, ⟨13, 1, 4, none, some 4⟩] := by
  decide

end RollupNode
