import RollupNode.AttemptBlocks
import RollupNode.RequestedHead
import RollupNode.UnwindReplay

set_option autoImplicit false

/-! What the handlers of the run loop leave alone. -/
namespace RollupNode
open RelationalTable ExceptTraversal

/-! ### Database calls -/

namespace Db

structure Remaps (db db' : Db) : Prop where
  batches : db'.batchCommits = db.batchCommits
  messages : db'.messageColumns = db.messageColumns

theorem Remaps.refl (db : Db) : db.Remaps db := ⟨rfl, rfl⟩

theorem Remaps.trans {a b c : Db} (h : a.Remaps b) (h' : b.Remaps c) : a.Remaps c :=
  ⟨h'.batches.trans h.batches, h'.messages.trans h.messages⟩

theorem remaps_unmapWhere (db : Db) (p : ℕ → Bool) : db.Remaps (db.unmapWhere p) :=
  ⟨rfl, db.unmapWhere_messageColumns p⟩

theorem remaps_of_purge {db db' : Db} {number : Option ℕ}
    (h : db.purgeL1MessageToL2BlockMappings number = .ok db') : db.Remaps db' := by
  cases number with
  | some n =>
    cases h
    exact db.remaps_unmapWhere _
  | none =>
    obtain ⟨safe, -, h⟩ := bind_eq_ok.1 h
    cases h
    exact db.remaps_unmapWhere _

theorem remaps_of_update {db db' : Db} {blocks : List L2BlockInfoWithL1Messages}
    (h : db.updateL1MessagesFromL2Blocks blocks = .ok db') : db.Remaps db' := by
  obtain ⟨purged, hpurged, h⟩ := bind_eq_ok.1 h
  cases h
  have hmapped : (purged.updateL1MessagesWithL2Blocks blocks).messageColumns =
      purged.messageColumns := by
    rw [messageColumns, updateL1MessagesWithL2Blocks]
    refine Table.map_key_update _ _ ?_ _
    intro r
    rfl
  exact (remaps_of_purge hpurged).trans ⟨rfl, hmapped⟩

theorem call_eq_ok {α : Type} {fault : Option DatabaseError} {outcome : Except Abort α} {a : α} :
    Db.call fault outcome = .ok a ↔ fault = none ∧ outcome = .ok a := by
  cases fault with
  | none => simp [Db.call]
  | some e => simp [Db.call]

end Db

namespace Faulty

theorem consolidateChunk_remaps (client : L2Client) (faults : Faults) (db : Db)
    (numbers : List ℕ) : db.Remaps (consolidateChunk client faults db numbers).1 := by
  unfold consolidateChunk
  split
  · exact .refl db
  split
  · split
    · exact .refl db
    · rename_i h
      exact Db.remaps_of_purge (Db.call_eq_ok.1 h).2
  · split
    · exact .refl db
    · rename_i h
      exact Db.remaps_of_update (Db.call_eq_ok.1 h).2

theorem consolidateChunks_remaps (client : L2Client) (faults : Faults) (db : Db)
    (chunks : List (List ℕ)) : db.Remaps (consolidateChunks client faults db chunks).1 := by
  induction chunks generalizing faults db with
  | nil => exact .refl db
  | cons chunk chunks ih =>
    have hchunk := consolidateChunk_remaps client faults db chunk
    unfold consolidateChunks
    split
    · rename_i h
      rw [h] at hchunk
      exact hchunk
    · rename_i h
      rw [h] at hchunk
      exact hchunk.trans (ih _ _)

end Faulty

/-! ### Handlers -/

/-- The batch rows, the sync flags, the requests that have not yielded, the held batch and
whether its attempt is scheduled. -/
structure DerivationState where
  batches : Table BatchCommitRow.hash
  syncState : SyncState
  pipeline : List BatchRequest
  held : Option BatchDerivationResult
  attemptScheduled : Bool

def Node.derivation (node : Node) : DerivationState :=
  ⟨node.db.batchCommits, node.syncState, node.pipeline, node.held, node.attemptScheduled⟩

namespace Node

/-- The sequencer is the same, and the messages up to the blocks they are mapped to. -/
structure Keeps (node node' : Node) : Prop where
  sequencer : node'.sequencer = node.sequencer
  messages : node'.db.messageColumns = node.db.messageColumns

theorem Keeps.refl (node : Node) : node.Keeps node := ⟨rfl, rfl⟩

theorem Keeps.trans {a b c : Node} (h : a.Keeps b) (h' : b.Keeps c) : a.Keeps c :=
  ⟨h'.sequencer.trans h.sequencer, h'.messages.trans h.messages⟩

theorem Keeps.of_same {node node₀ node' : Node} (h : node₀.Keeps node')
    (hsequencer : node₀.sequencer = node.sequencer) (hdb : node₀.db = node.db) :
    node.Keeps node' :=
  ⟨h.sequencer.trans hsequencer, h.messages.trans (congrArg Db.messageColumns hdb)⟩

/-- What the derivation of batches rests on is the same as well. -/
structure Leaves (node node' : Node) : Prop extends node.Keeps node' where
  derivation : node'.derivation = node.derivation

theorem Leaves.refl (node : Node) : node.Leaves node := ⟨.refl node, rfl⟩

theorem leaves_of_remaps {node : Node} (fcs : ForkchoiceState) {db : Db} (h : node.db.Remaps db) :
    node.Leaves { node with fcs := fcs, db := db } := by
  refine ⟨⟨rfl, h.messages⟩, ?_⟩
  simp only [derivation, h.batches]

theorem transact_keeps {node : Node} (fault : Option DatabaseError) {handled : Handled}
    (h : node.Keeps handled.1) : node.Keeps (node.transact fault handled).1 := by
  cases fault with
  | none => exact h
  | some e => exact .refl node

theorem handleL1Finalized_keeps (node : Node) (n : ℕ) (reply : Reply ForkchoiceUpdated) :
    node.Keeps (node.handleL1Finalized n reply).1 := by
  have hstored {db : Db} {info : Option BlockInfo} {triggered : List BatchInfo}
      (h : finalizedByL1 node.db n = .ok (db, info, triggered)) :
      db.messageColumns = node.db.messageColumns := by
    obtain ⟨⟨finalized, block⟩, hfinalize, h⟩ := bind_eq_ok.1 h
    cases h
    unfold Db.finalizeConsolidatedBatches at hfinalize
    split at hfinalize
    · cases hfinalize
      rfl
    split at hfinalize
    · cases hfinalize
    · cases hfinalize
      rfl
  unfold handleL1Finalized
  split
  · exact .refl node
  · rename_i h
    exact ⟨rfl, hstored h⟩
  · rename_i db block triggered h
    have hupdate : node.Keeps
        (({ node with db := db } : Node).updateFcs none none (some block) reply).1 :=
      ⟨rfl, hstored h⟩
    split
    · rename_i hresult
      rw [hresult] at hupdate
      exact hupdate
    · rename_i hresult
      rw [hresult] at hupdate
      exact ⟨hupdate.sequencer, hupdate.messages⟩

theorem handleBatchCommit_keeps (node : Node) (blockInfo : BlockInfo) (batch : BatchCommitData) :
    node.Keeps (node.handleBatchCommit blockInfo batch).1 := by
  unfold handleBatchCommit
  split
  · exact .refl node
  rename_i h
  obtain ⟨l1Blocks, rfl⟩ := commitBatch_ok h
  simp only
  split
  · exact ⟨rfl, rfl⟩
  · exact ⟨rfl, rfl⟩

theorem handleBatchFinalization_keeps (node : Node) (index : ℕ) (blockInfo : BlockInfo) :
    node.Keeps (node.handleBatchFinalization index blockInfo).1 := by
  unfold handleBatchFinalization
  split
  · exact .refl node
  rename_i h
  obtain ⟨stored, hinfo, h⟩ := bind_eq_ok.1 h
  obtain ⟨l1Blocks, rfl⟩ := Db.insertL1BlockInfo_ok hinfo
  simp only [pure, Except.pure] at h
  split at h
  · cases h
    exact ⟨rfl, rfl⟩
  · cases h
    exact ⟨rfl, rfl⟩

theorem handleBatchRevert_keeps (node : Node) (first last : ℕ) (blockInfo : BlockInfo)
    (reply : Reply ForkchoiceUpdated) :
    node.Keeps (node.handleBatchRevert first last blockInfo reply).1 := by
  unfold handleBatchRevert
  split
  · exact .refl node
  rename_i h
  obtain ⟨⟨l1Blocks, rfl⟩, -⟩ := revertBatches_ok h
  simp only
  split
  · rw [updateFcsAfterUnwind_node]
    exact ⟨rfl, rfl⟩
  · exact ⟨rfl, rfl⟩

theorem updateFcsHead_leaves (node : Node) (fault : Option DatabaseError) (head : BlockInfo)
    (client : L2Client) (reply : Reply ForkchoiceUpdated) :
    node.Leaves (node.transactLast fault (node.updateFcsHead head client reply)).1 := by
  have hrecorded : node.db.Remaps (node.recordedHead head) :=
    (node.db.remaps_unmapWhere _).trans ⟨rfl, rfl⟩
  rcases node.updateFcsHead_cases head client reply with ⟨-, -, h⟩ | ⟨-, -, h⟩ | ⟨-, e, h⟩
  · rw [h]
    cases fault with
    | none => exact leaves_of_remaps _ hrecorded
    | some e => exact leaves_of_remaps _ (.refl node.db)
  · rw [h]
    cases fault with
    | none => exact leaves_of_remaps _ hrecorded
    | some e => exact .refl node
  · rw [h]
    cases fault with
    | none => exact .refl node
    | some e' => exact .refl node

theorem runAttempt_keeps (node : Node) (client : L2Client) (replies : ℕ → ActionReplies) :
    node.Keeps (node.runAttempt client replies).1 := by
  unfold runAttempt
  split
  · exact .refl node
  rename_i batch _
  have hdb : (reconcileAndConsolidate client replies node.fcs node.db batch).2.1.messageColumns =
      node.db.messageColumns := by
    cases hresult : (reconcileAndConsolidate client replies node.fcs node.db batch).2.2 with
    | error failure => rw [reconcileAndConsolidate_db_of_error hresult]
    | ok outcome =>
      obtain ⟨o, -, hstored⟩ := reconcileAndConsolidate_consolidated hresult
      rw [hstored, Db.messageColumns, Db.consolidated_l1Messages_rows, List.map_map]
      rfl
  split
  · rename_i h
    rw [h] at hdb
    exact ⟨rfl, hdb⟩
  · rename_i h
    rw [h] at hdb
    exact ⟨rfl, hdb⟩
  · rename_i h
    rw [h] at hdb
    exact ⟨rfl, hdb⟩
  · rename_i h
    rw [h] at hdb
    exact ⟨rfl, hdb⟩

theorem holdBatch_keeps (node : Node) (batch : BatchDerivationResult) :
    node.Keeps (node.holdBatch batch) := by
  unfold holdBatch
  split
  · split
    · exact ⟨rfl, rfl⟩
    · exact .refl node
  · exact .refl node

theorem handleSignerEvent_leaves (node : Node) (block : L2Block) (stored : Except Abort Unit) :
    node.Leaves (node.handleSignerEvent block stored).1 := by
  unfold handleSignerEvent
  split
  · exact .refl node
  · exact leaves_of_remaps node.fcs ⟨rfl, rfl⟩

end Node

/-! ### Imports, notifications and payloads -/

theorem Sequencer.finalizePayloadBuilding_job (s : Sequencer) (fcs : ForkchoiceState) (id : PayloadId)
    (payload : Reply BuiltPayload) (reply : Reply ForkchoiceUpdated) :
    (s.finalizePayloadBuilding fcs id payload reply).1.payloadBuildingJob =
      s.payloadBuildingJob := by
  unfold finalizePayloadBuilding
  simp only
  split
  · rfl
  split
  · rfl
  · rfl

theorem Node.job_of_sequencer {node : Node} {s : Sequencer} (h : node.sequencer = some s) :
    node.job = s.payloadBuildingJob := by
  unfold job
  rw [h]
  rfl

namespace Faulty

theorem consolidateChain_keeps (node : Node) (client : L2Client) (faults : Faults) :
    node.Keeps (consolidateChain node client faults).1 := by
  have hchunks := consolidateChunks_remaps client faults node.db (unsafeChunks node.fcs)
  unfold consolidateChain
  split
  · rename_i h
    rw [h] at hchunks
    exact ⟨rfl, hchunks.messages⟩
  · rename_i db _ h
    rw [h] at hchunks
    have hread : node.Keeps { node with db := db } := ⟨rfl, hchunks.messages⟩
    exact hread.trans (Node.transact_keeps _ ⟨rfl, rfl⟩)

theorem handleSynced_keeps (node : Node) (client : L2Client) (faults : Faults) :
    node.Keeps (handleSynced node client faults).1 := by
  unfold handleSynced
  simp only
  split
  · exact (consolidateChain_keeps _ client faults).of_same rfl rfl
  · exact ⟨rfl, rfl⟩

theorem recordImport_leaves (node : Node) (fault : Option DatabaseError) (chain : List L2Block)
    (received : ℕ) : node.Leaves (recordImport node fault chain received).1 := by
  unfold recordImport
  split
  · split
    · exact .refl node
    · rename_i h
      have hupdate := Db.remaps_of_update (Db.call_eq_ok.1 h).2
      exact Node.leaves_of_remaps node.fcs (hupdate.trans ⟨rfl, rfl⟩)
  · exact .refl node

theorem startOptimisticSync_keeps (node : Node) (fault : Option DatabaseError)
    (target : BlockInfo) (reply : Reply ForkchoiceUpdated) :
    node.Keeps (startOptimisticSync node fault target reply).1 := by
  unfold startOptimisticSync
  simp only
  split
  · exact ⟨rfl, rfl⟩
  split
  · exact ⟨rfl, rfl⟩
  · rename_i h
    exact ⟨rfl, (Db.remaps_of_purge (Db.call_eq_ok.1 h).2).messages⟩

theorem finishImport_keeps (node : Node) (client : L2Client) (faults : Faults)
    (recorded : Option DatabaseError) (chain : List L2Block) (received : ℕ) :
    node.Keeps (finishImport node client faults recorded chain received).1 := by
  unfold finishImport
  split
  · exact (recordImport_leaves node recorded chain received).toKeeps
  simp only
  split
  · have hchain := consolidateChain_keeps
      { node with syncState := { node.syncState with l2 := true } } client faults
    split
    · rename_i h
      rw [h] at hchain
      exact hchain.of_same rfl rfl
    · rename_i h
      rw [h] at hchain
      exact (hchain.trans (recordImport_leaves _ recorded chain received).toKeeps).of_same rfl rfl
  · exact ⟨rfl, rfl⟩

theorem importChain_keeps (node : Node) (client : L2Client) (faults : Faults)
    (chain : List L2Block) (received : ℕ) (replies : ImportReplies) :
    node.Keeps (importChain node client faults chain received replies).1 := by
  unfold importChain
  split
  · exact .refl node
  split
  · exact .refl node
  simp only
  split
  · exact ⟨rfl, rfl⟩
  split
  · exact ⟨rfl, rfl⟩
  · exact (finishImport_keeps _ client _ _ chain received).of_same rfl rfl
  · exact ⟨rfl, rfl⟩

theorem importPeerBlock_keeps (node : Node) (config : ChainOrchestratorConfig) (faults : Faults)
    (received : PeerImport) : node.Keeps (importPeerBlock node config faults received).1 := by
  unfold importPeerBlock
  simp only
  split
  · exact .refl node
  · exact startOptimisticSync_keeps node _ _ _
  · exact importChain_keeps node _ faults _ _ _
  · exact importChain_keeps node _ faults _ _ _
  · exact .refl node

theorem retryBlockedImport_keeps (config : ChainOrchestratorConfig) (faults : Faults)
    (n : L1Notification) (retried : Option PeerImport) (handled : Handled) :
    handled.1.Keeps (retryBlockedImport config faults n retried handled).node := by
  unfold retryBlockedImport
  split
  · exact importPeerBlock_keeps _ config _ _
  · exact .refl _

theorem runAttempt_keeps (node : Node) (faults : Faults) (client : L2Client)
    (replies : ℕ → ActionReplies) : node.Keeps (runAttempt node faults client replies).1 := by
  unfold runAttempt
  split
  · exact ⟨rfl, rfl⟩
  · exact ⟨rfl, rfl⟩
  · exact node.runAttempt_keeps client replies

theorem handleL1Notification_keeps (node : Node) (config : ChainOrchestratorConfig)
    (faults : Faults) (client : L2Client) (reply : Reply ForkchoiceUpdated) (n : L1Notification) :
    (∃ message blockInfo timestamp, n = .l1Message message blockInfo timestamp) ∨
      (∃ number, n = .reorg number) ∨
      node.Keeps (handleL1Notification node config faults client reply n).1 := by
  cases n with
  | l1Message message blockInfo timestamp => exact .inl ⟨message, blockInfo, timestamp, rfl⟩
  | reorg number => exact .inr (.inl ⟨number, rfl⟩)
  | consensus signer => exact .inr (.inr (.refl node))
  | synced => exact .inr (.inr (handleSynced_keeps node client faults))
  | processed number => exact .inr (.inr (Node.transact_keeps _ ⟨rfl, rfl⟩))
  | newBlock blockInfo => exact .inr (.inr (Node.transact_keeps _ ⟨rfl, rfl⟩))
  | finalized number =>
    exact .inr (.inr (Node.transact_keeps _ (node.handleL1Finalized_keeps number reply)))
  | batchCommit blockInfo data =>
    exact .inr (.inr (Node.transact_keeps _ (node.handleBatchCommit_keeps blockInfo data)))
  | batchRevert batchInfo blockInfo =>
    exact .inr (.inr (Node.transact_keeps _ (node.handleBatchRevert_keeps _ _ blockInfo reply)))
  | batchRevertRange first last blockInfo =>
    exact .inr (.inr (Node.transact_keeps _
      (node.handleBatchRevert_keeps first last blockInfo reply)))
  | batchFinalization hash index blockInfo =>
    exact .inr (.inr (Node.transact_keeps _ (node.handleBatchFinalization_keeps index blockInfo)))

/-- A payload that is ready changes the sequencer, though not its job. -/
theorem handlePayloadReady_frame (node : Node) (fault : Option DatabaseError) (id : PayloadId)
    (payload : Reply BuiltPayload) (reply : Reply ForkchoiceUpdated) :
    let after := (handlePayloadReady node fault id payload reply).1
    after.job = node.job ∧ after.db.messageColumns = node.db.messageColumns ∧
      after.derivation = node.derivation := by
  unfold handlePayloadReady
  split
  · exact ⟨rfl, rfl, rfl⟩
  rename_i s hsequencer
  have hjob := s.finalizePayloadBuilding_job node.fcs id payload reply
  rw [← Node.job_of_sequencer hsequencer] at hjob
  split
  · rename_i h
    rw [h] at hjob
    exact ⟨hjob, rfl, rfl⟩
  · rename_i h
    rw [h] at hjob
    exact ⟨hjob, rfl, rfl⟩
  · rename_i h
    rw [h] at hjob
    exact ⟨hjob, rfl, rfl⟩
  · rename_i h
    rw [h] at hjob
    split
    · exact ⟨hjob, rfl, rfl⟩
    · rename_i hupdate
      have hremaps := Db.remaps_of_update (Db.call_eq_ok.1 hupdate).2
      refine ⟨hjob, hremaps.messages, ?_⟩
      simp only [Node.derivation, hremaps.batches]

end Faulty
end RollupNode
