import RollupNode.HandlerFrames
import RollupNode.MessageQueue
import RollupNode.UnwindForkchoice

set_option autoImplicit false

/-! Only the notification of a message adds an L1 message. -/
namespace RollupNode
open RelationalTable ExceptTraversal

namespace Db

def Stores (db : Db) (hash : B256) : Prop := ∃ r ∈ db.l1Messages, r.hash = hash

instance (db : Db) (hash : B256) : Decidable (db.Stores hash) :=
  inferInstanceAs (Decidable (∃ r ∈ db.l1Messages, r.hash = hash))

def storedHashes (db : Db) : List B256 := db.messageColumns.map MessageColumns.hash

theorem stores_iff {db : Db} {hash : B256} : db.Stores hash ↔ hash ∈ db.storedHashes := by
  rw [storedHashes, messageColumns, List.map_map]
  exact List.mem_map.symm

theorem storedHashes_of_unwind {db db' : Db} {n : ℕ} {result : UnwindResult}
    (h : db.unwind n = .ok (db', result)) : db'.storedHashes.Sublist db.storedHashes := by
  rw [storedHashes, unwind_messageColumns h]
  exact List.filter_sublist.map _

theorem storedHashes_of_insert {db db' : Db} {m : L1MessageEnvelope}
    (h : db.insertL1Message m = .ok db') :
    db' = db ∨ m.transaction.txHash ∉ db.storedHashes ∧
      db'.storedHashes = db.storedHashes ++ [m.transaction.txHash] := by
  rcases insertL1Message_columns h with hsame | ⟨hindex, hcolumns⟩
  · exact .inl hsame
  refine .inr ⟨?_, ?_⟩
  · intro hstored
    have hnew : (L1MessageRow.ofEnvelope m).queueIndex ∉ db.l1Messages.keys := hindex
    have hhash : ∃ r ∈ db.l1Messages, r.hash = (L1MessageRow.ofEnvelope m).hash :=
      stores_iff.2 hstored
    simp only [insertL1Message, dif_neg hnew, if_pos hhash] at h
    cases h
  · rw [storedHashes, hcolumns, List.map_append]
    rfl

end Db

theorem Node.Keeps.storedHashes {node node' : Node} (h : node.Keeps node') :
    node'.db.storedHashes = node.db.storedHashes :=
  congrArg (List.map MessageColumns.hash) h.messages

theorem Node.Keeps.sublist {node node' : Node} (h : node.Keeps node') :
    node'.db.storedHashes.Sublist node.db.storedHashes := h.storedHashes ▸ .refl _

theorem Node.Keeps.stores_iff {node node' : Node} (h : node.Keeps node') (hash : B256) :
    node'.db.Stores hash ↔ node.db.Stores hash := by
  rw [Db.stores_iff, Db.stores_iff, h.storedHashes]

/-! ### Handlers that store no message -/

namespace Node

theorem unwindAndRevalidateHeldBatch_storedHashes {node node' : Node} {n : ℕ}
    {unwound : UnwindResult} {held : HeldReorgOutcome}
    (h : node.unwindAndRevalidateHeldBatch n = .ok (node', unwound, held)) :
    node'.db.storedHashes.Sublist node.db.storedHashes := by
  obtain ⟨db, hunwind, -, rfl⟩ := unwindAndRevalidateHeldBatch_ok h
  obtain ⟨held, scheduled, hnode⟩ := node.revalidated_eq (revalidateHeld db n node.held)
  obtain ⟨batchCommits, hchecked⟩ := revalidateHeld_db db n node.held
  have hstored := Db.storedHashes_of_unwind hunwind
  rw [hnode, hchecked]
  exact hstored

theorem handleL1Reorg_storedHashes (node : Node) (n : ℕ) (client : L2Client)
    (reply : Reply ForkchoiceUpdated) :
    (node.handleL1Reorg n client reply).1.db.storedHashes.Sublist node.db.storedHashes := by
  unfold handleL1Reorg
  simp only
  split
  · exact .refl _
  rename_i node₁ unwound held hunwind
  obtain ⟨sequencer, hlowered⟩ := node₁.loweredHeadInfo_node client unwound.l2HeadBlockNumber
  have hunwound := unwindAndRevalidateHeldBatch_storedHashes hunwind
  refine List.Sublist.trans ?_ hunwound
  split
  · rename_i hresult
    rw [hresult] at hlowered
    rw [hlowered]
  · rename_i node₂ head hresult
    rw [hresult] at hlowered
    obtain rfl : node₂ = _ := hlowered
    obtain ⟨fcs, scheduled, hfinish, -⟩ := finishL1Reorg_node
      { node₁ with sequencer := sequencer } unwound held head reply
    obtain ⟨sequencer', hcancel⟩ := cancelJobAbove_node
      { node₁ with sequencer := sequencer } unwound.l1BlockNumber
    rw [hfinish, hcancel]

theorem revertToL1Block_storedHashes (node : Node) (n : ℕ) (reply : Reply ForkchoiceUpdated) :
    (node.revertToL1Block n reply).1.db.storedHashes.Sublist node.db.storedHashes := by
  rcases node.revertToL1Block_cases n reply with
    ⟨e, h⟩ | ⟨unwound, result, held, fcs, hunwind, ⟨e, h⟩ | h⟩
  · rw [h]
  · have hunwound := unwindAndRevalidateHeldBatch_storedHashes hunwind
    rw [h]
    exact hunwound
  · have hunwound := unwindAndRevalidateHeldBatch_storedHashes hunwind
    rw [h, scheduleIfSurvived_eq]
    exact hunwound

end Node

namespace Faulty

theorem startPayloadBuilding_db (node : Node) (fault : Option DatabaseError) (s : Sequencer)
    (reply : Reply ForkchoiceUpdated) : (startPayloadBuilding node fault s reply).1.db = node.db := by
  cases fault with
  | none => rfl
  | some e => rfl

theorem handleCommand_storedHashes (node : Node) (faults : Faults) (command : Command) :
    (handleCommand node faults command).node.db.storedHashes.Sublist node.db.storedHashes := by
  cases command with
  | enableAutomaticSequencing => exact .refl _
  | disableAutomaticSequencing => exact .refl _
  | buildBlock reply =>
    change (buildBlock node (faults 0) reply).1.db.storedHashes.Sublist _
    unfold buildBlock
    split
    · exact .refl _
    split
    · exact .refl _
    · rw [startPayloadBuilding_db]
  | updateFcsHead head client reply =>
    exact (node.updateFcsHead_leaves (faults 0) head client reply).sublist
  | importBlock block client replies =>
    exact (importChain_keeps node client faults [block] block.number replies).sublist
  | revertToL1Block n reply =>
    change (revertToL1Block node faults n reply).1.db.storedHashes.Sublist _
    unfold revertToL1Block
    cases faults 0 with
    | none => exact node.revertToL1Block_storedHashes n reply
    | some e => exact .refl _

/-! ### The notification of a message -/

theorem handleL1Message_storedHashes (node : Node) (config : ChainOrchestratorConfig)
    (faults : Faults) (message : TxL1Message) (l1BlockInfo : BlockInfo) :
    let handled := handleL1Message node config faults message l1BlockInfo
    handled.1.db.storedHashes = node.db.storedHashes ∨
      handled.2 = .ok () ∧ message.txHash ∉ node.db.storedHashes ∧
        handled.1.db.storedHashes = node.db.storedHashes ++ [message.txHash] := by
  rcases handleL1Message_cases node config faults message l1BlockInfo with
    hsame | ⟨hok, queueHash, db, -, hstore, hnode⟩
  · exact .inl (congrArg (·.db.storedHashes) hsame)
  obtain ⟨-, inserted, hinsert, hblock⟩ := storeL1Message_ok hstore
  obtain ⟨l1Blocks, rfl⟩ := Db.insertL1BlockInfo_ok hblock
  simp only [hnode, hok, true_and]
  rcases Db.storedHashes_of_insert hinsert with rfl | hnew
  · exact .inl rfl
  · exact .inr hnew

theorem handleL1Notification_storedHashes (node : Node) (config : ChainOrchestratorConfig)
    (faults : Faults) (client : L2Client) (reply : Reply ForkchoiceUpdated) (n : L1Notification) :
    let handled := handleL1Notification node config faults client reply n
    handled.1.db.storedHashes.Sublist node.db.storedHashes ∨
      ∃ message blockInfo timestamp, n = .l1Message message blockInfo timestamp ∧
        handled.2 = .ok () ∧ message.txHash ∉ node.db.storedHashes ∧
        handled.1.db.storedHashes = node.db.storedHashes ++ [message.txHash] := by
  rcases handleL1Notification_keeps node config faults client reply n with
    ⟨message, blockInfo, timestamp, rfl⟩ | ⟨number, rfl⟩ | hkeeps
  · rcases handleL1Message_storedHashes node config faults message blockInfo with hsame | hnew
    · exact .inl (hsame ▸ .refl _)
    · exact .inr ⟨message, blockInfo, timestamp, rfl, hnew⟩
  · refine .inl ?_
    change (handleL1Reorg node faults number client reply).1.db.storedHashes.Sublist _
    unfold handleL1Reorg
    cases faults 0 with
    | none => exact node.handleL1Reorg_storedHashes number client reply
    | some e => exact .refl _
  · exact .inl hkeeps.sublist

/-- A turn stores a message only when it is notified of it, and none for a second time. -/
theorem takeBranch_storedHashes (config : ChainOrchestratorConfig) (faults : Faults) (node : Node)
    (branch : Branch) :
    let after := (takeBranch config faults node branch).node.db.storedHashes
    after.Sublist node.db.storedHashes ∨ ∃ message blockInfo timestamp client reply retried,
      branch = .notification (.l1Message message blockInfo timestamp) client reply retried ∧
        (handleL1Message node config faults message blockInfo).2 = .ok () ∧
        message.txHash ∉ node.db.storedHashes ∧
        after = node.db.storedHashes ++ [message.txHash] := by
  cases branch with
  | attempt client replies =>
    exact .inl (runAttempt_keeps node faults client replies).sublist
  | command command => exact .inl (handleCommand_storedHashes node faults command)
  | signedBlock block stored =>
    exact .inl (node.handleSignerEvent_leaves block stored).sublist
  | derivedBatch batch => exact .inl (node.holdBatch_keeps batch).sublist
  | newBlock received =>
    exact .inl (importPeerBlock_keeps node config faults received).sublist
  | newSlot shouldSequenceBlock reply =>
    refine .inl ?_
    change (handleNewSlot node (faults 0) shouldSequenceBlock reply).1.db.storedHashes.Sublist _
    unfold handleNewSlot
    split
    · exact .refl _
    split
    · rw [startPayloadBuilding_db]
    · exact .refl _
  | payloadReady payload reply =>
    refine .inl ?_
    simp only [takeBranch]
    split
    · exact .refl _
    · rename_i job _
      change (Db.storedHashes (handlePayloadReady node.takeJob (faults 0) job.payloadId payload
        reply).1.db).Sublist _
      rw [Db.storedHashes, (handlePayloadReady_frame _ _ _ _ _).2.1]
      exact .refl _
  | notification n client reply retried =>
    have hretried : (takeBranch config faults node
        (.notification n client reply retried)).node.db.storedHashes = _ :=
      (retryBlockedImport_keeps config faults n retried _).storedHashes
    simp only [hretried]
    refine (handleL1Notification_storedHashes node config faults client reply n).imp_right ?_
    rintro ⟨message, blockInfo, timestamp, rfl, hok, hnew⟩
    exact ⟨message, blockInfo, timestamp, client, reply, retried, rfl, hok, hnew⟩

theorem takeBranch_stores {config : ChainOrchestratorConfig} {faults : Faults} {node : Node}
    {branch : Branch} {hash : B256}
    (h : (takeBranch config faults node branch).node.db.Stores hash) :
    node.db.Stores hash ∨ ∃ message blockInfo timestamp client reply retried,
      branch = .notification (.l1Message message blockInfo timestamp) client reply retried ∧
        hash = message.txHash ∧
        (handleL1Message node config faults message blockInfo).2 = .ok () := by
  rw [Db.stores_iff] at h ⊢
  rcases takeBranch_storedHashes config faults node branch with
    hsublist | ⟨message, blockInfo, timestamp, client, reply, retried, hbranch, hok, -, hafter⟩
  · exact .inl (hsublist.subset h)
  rw [hafter, List.mem_append] at h
  refine h.imp_right ?_
  intro hnew
  exact ⟨message, blockInfo, timestamp, client, reply, retried, hbranch,
    List.mem_singleton.1 hnew, hok⟩

theorem takeBranch_nodup {config : ChainOrchestratorConfig} {faults : Faults} {node : Node}
    {branch : Branch} (h : node.db.storedHashes.Nodup) :
    (takeBranch config faults node branch).node.db.storedHashes.Nodup := by
  rcases takeBranch_storedHashes config faults node branch with
    hsublist | ⟨message, -, -, -, -, -, -, -, hnew, hafter⟩
  · exact hsublist.nodup h
  · rw [hafter, ← List.concat_eq_append]
    exact h.concat hnew

end Faulty
end RollupNode
