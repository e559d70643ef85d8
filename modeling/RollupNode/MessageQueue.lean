import RollupNode.RunLoop
import RollupNode.IndexedChain
import RollupNode.UnwindReplay

set_option autoImplicit false

/-! The queue of L1 messages has no gap, and its queue hashes form one chain. -/
namespace RollupNode
open IndexedChain GuardedRuns RelationalTable ExceptTraversal

/-- From the V2 start index on, the queue hash folds the transaction hashes into zero. -/
def messageFormat (config : ChainOrchestratorConfig) : Format MessageColumns B256 B256 where
  position := MessageColumns.queueIndex
  item := MessageColumns.hash
  link := MessageColumns.queueHash
  fold := config.hashMsgQueue
  zero := 0
  first := config.l1V2MessageQueueStartIndex

namespace Db

def messageQueue (db : Db) : List MessageColumns :=
  orderBy MessageColumns.queueIndex db.messageColumns

/-- The queue indices are `0 .. k - 1` for some `k`, and each message has its place's hash. -/
def QueueSound (config : ChainOrchestratorConfig) (db : Db) : Prop :=
  (messageFormat config).Chained db.messageQueue

theorem messageQueue_of_chained {config : ChainOrchestratorConfig} {db : Db}
    (h : (messageFormat config).Chained db.messageColumns) : db.messageQueue = db.messageColumns := by
  have hsorted : (db.messageColumns.map MessageColumns.queueIndex).Pairwise (· ≤ ·) := by
    change (db.messageColumns.map (messageFormat config).position).Pairwise _
    rw [h.positions]
    exact (List.pairwise_lt_range).imp Nat.le_of_lt
  exact List.Pairwise.insertionSort_eq (List.pairwise_map.1 hsorted)

theorem mem_keys_messages (db : Db) (i : ℕ) :
    i ∈ db.l1Messages.keys ↔ i ∈ db.messageColumns.map MessageColumns.queueIndex := by
  rw [messageColumns, List.map_map]
  exact Iff.rfl

section
variable {config : ChainOrchestratorConfig} {db : Db}

theorem messagesFrom_queueIndex (h : (messageFormat config).Chained db.messageColumns) (i : ℕ) :
    (db.messagesFrom (fun r => i ≤ r.queueIndex) 1 = [] ∧ db.messageColumns.length ≤ i) ∨
      ∃ r : L1MessageRow, db.messagesFrom (fun r => i ≤ r.queueIndex) 1 = [r.toEnvelope] ∧
        db.messageColumns[i]? = some r.columns := by
  have hposition {r : L1MessageRow} (hr : r ∈ db.l1Messages) :
      db.messageColumns[r.queueIndex]? = some r.columns :=
    h.get_position (List.mem_map_of_mem hr)
  have hrow (hi : i < db.messageColumns.length) : ∃ r ∈ db.l1Messages, r.queueIndex = i := by
    obtain ⟨m, hm, hindex⟩ := List.mem_map.1 ((h.mem_positions i).2 hi)
    obtain ⟨r, hr, rfl⟩ := List.mem_map.1 hm
    exact ⟨r, hr, hindex⟩
  unfold messagesFrom
  cases hfound : orderBy L1MessageRow.queueIndex
      (db.l1Messages.select (fun r => i ≤ r.queueIndex)) with
  | nil =>
    refine Or.inl ⟨rfl, ?_⟩
    by_contra hi
    obtain ⟨r, hr, hindex⟩ := hrow (Nat.not_le.1 hi)
    have hselected : r ∈ db.l1Messages.select (fun r => i ≤ r.queueIndex) :=
      (db.l1Messages.mem_select _ r).2 ⟨hr, decide_eq_true (Nat.le_of_eq hindex.symm)⟩
    rw [(orderBy_eq_nil _ _).1 hfound] at hselected
    cases hselected
  | cons r rest =>
    refine Or.inr ⟨r, rfl, ?_⟩
    obtain ⟨hmem, hleast⟩ := head_orderBy (hfound ▸ rfl : (orderBy L1MessageRow.queueIndex
      (db.l1Messages.select (fun r => i ≤ r.queueIndex))).head? = some r)
    obtain ⟨hr, hle⟩ := (db.l1Messages.mem_select _ r).1 hmem
    have hle : i ≤ r.queueIndex := of_decide_eq_true hle
    have hlt := (List.getElem?_eq_some_iff.1 (hposition hr)).1
    obtain ⟨q, hq, hindex⟩ := hrow (Nat.lt_of_le_of_lt hle hlt)
    have hge := hleast q ((db.l1Messages.mem_select _ q).2
      ⟨hq, decide_eq_true (Nat.le_of_eq hindex.symm)⟩)
    have heq : r.queueIndex = i := by omega
    rw [← heq]
    exact hposition hr

theorem queueIndex_le_of_hasPrevious (h : (messageFormat config).Chained db.messageColumns)
    {queueIndex : ℕ} (hprevious : hasPreviousL1Message db queueIndex = .ok true) :
    queueIndex ≤ db.messageColumns.length := by
  unfold hasPreviousL1Message at hprevious
  split at hprevious
  · rcases messagesFrom_queueIndex h (queueIndex - 1) with ⟨hnone, -⟩ | ⟨r, -, hr⟩
    · simp only [getNL1Messages, hnone] at hprevious
      cases hprevious
    · have hlt := (List.getElem?_eq_some_iff.1 hr).1
      omega
  · omega

theorem computeL1MessageQueueHash_next {message : TxL1Message} {queueHash : Option B256}
    (h : (messageFormat config).Chained db.messageColumns)
    (hindex : message.queueIndex = db.messageColumns.length)
    (hcompute : computeL1MessageQueueHash config db message = .ok queueHash) :
    queueHash = (messageFormat config).nextLink db.messageColumns message.txHash := by
  unfold computeL1MessageQueueHash at hcompute
  simp only at hcompute
  split at hcompute
  · rename_i hfirst
    cases hcompute
    have hlength : db.messageColumns.length = (messageFormat config).first := hindex ▸ hfirst
    exact (Format.nextLink_first hlength message.txHash).symm
  split at hcompute
  · rename_i hfirst
    obtain ⟨found, hfound, hcompute⟩ := bind_eq_ok.1 hcompute
    cases hfound
    rcases messagesFrom_queueIndex h (message.queueIndex - 1) with ⟨hnone, -⟩ | ⟨r, hsome, hr⟩
    · rw [hnone] at hcompute
      cases hcompute
    · rw [hsome] at hcompute
      cases hcompute
      rw [hindex] at hr hfirst
      exact (h.nextLink_eq hfirst hr message.txHash).symm
  · cases hcompute
    refine (Format.nextLink_before ?_ message.txHash).symm
    change db.messageColumns.length < config.l1V2MessageQueueStartIndex
    omega

theorem insertL1Message_columns {db' : Db} {m : L1MessageEnvelope}
    (h : db.insertL1Message m = .ok db') :
    db' = db ∨ m.transaction.queueIndex ∉ db.l1Messages.keys ∧
      db'.messageColumns = db.messageColumns ++ [(L1MessageRow.ofEnvelope m).columns] := by
  obtain rfl | ⟨hnew, rfl⟩ := insertL1Message_ok h
  · exact Or.inl rfl
  · exact Or.inr ⟨hnew, List.map_append⟩

theorem storeL1Message_columns {message : TxL1Message} {queueHash : Option B256} {db' : Db}
    (h : (messageFormat config).Chained db.messageColumns) {l1BlockInfo : BlockInfo}
    (hcompute : computeL1MessageQueueHash config db message = .ok queueHash)
    (hstore : storeL1Message db ⟨message, l1BlockInfo.number, none, queueHash⟩ l1BlockInfo =
      .ok db') :
    db'.messageColumns = db.messageColumns ∨ ∃ m : MessageColumns,
      m.queueIndex = db.messageColumns.length ∧
        m.queueHash = (messageFormat config).nextLink db.messageColumns m.hash ∧
        m.l1BlockNumber = l1BlockInfo.number ∧
        db'.messageColumns = db.messageColumns ++ [m] := by
  obtain ⟨hprevious, inserted, hinsert, hblock⟩ := storeL1Message_ok hstore
  obtain ⟨l1Blocks, rfl⟩ := insertL1BlockInfo_ok hblock
  rcases insertL1Message_columns hinsert with rfl | ⟨hnew, hcolumns⟩
  · exact Or.inl rfl
  have hle := queueIndex_le_of_hasPrevious h hprevious
  rw [mem_keys_messages] at hnew
  have hnot : ¬message.queueIndex < db.messageColumns.length := by
    intro hlt
    exact hnew ((h.mem_positions message.queueIndex).2 hlt)
  have hindex : message.queueIndex = db.messageColumns.length := by
    have hle : message.queueIndex ≤ db.messageColumns.length := hle
    omega
  refine Or.inr ⟨_, hindex, ?_, rfl, hcolumns⟩
  exact computeL1MessageQueueHash_next h hindex hcompute

theorem unwind_messageColumns {db' : Db} {n : ℕ} {result : UnwindResult}
    (h : db.unwind n = .ok (db', result)) :
    db'.messageColumns = db.messageColumns.filter (fun m => m.l1BlockNumber ≤ n) := by
  obtain ⟨rfl, -⟩ := unwind_ok h
  rw [withHead_messageColumns, withoutAbove_messageColumns, messagesAsOf, messageColumns,
    List.filter_map]
  rfl

end
end Db

inductive QueueAction where
  | message (m : TxL1Message) (l1BlockInfo : BlockInfo) (faults : Faults)
  | unwind (n : ℕ)

structure QueueRun where
  node : Node
  next : ℕ
  stopped : Bool

namespace QueueRun

/-- An unwind can fail only with a panic. -/
def step (config : ChainOrchestratorConfig) (s : QueueRun) (action : QueueAction) : QueueRun :=
  if s.stopped then s
  else match action with
    | .message m l1BlockInfo faults =>
      { s with
        node := (Faulty.handleL1Message s.node config faults m l1BlockInfo).1
        next := l1BlockInfo.number }
    | .unwind n =>
      match s.node.db.unwind n with
      | .ok (db, _) => { s with node := { s.node with db := db }, next := n + 1 }
      | .error _ => { s with stopped := true }

/-- Messages come in the order of L1, and from above `n` after an unwind to `n`. -/
def InL1Order (s : QueueRun) : QueueAction → Prop
  | .message _ l1BlockInfo _ => s.next ≤ l1BlockInfo.number
  | .unwind _ => True

/-- A call that fails leaves the messages and the L1 blocks alone. -/
def FailsCleanly (config : ChainOrchestratorConfig) (s : QueueRun) : QueueAction → Prop
  | .message m l1BlockInfo faults =>
    (Faulty.handleL1Message s.node config faults m l1BlockInfo).2.isOk = false →
      let db := (Faulty.handleL1Message s.node config faults m l1BlockInfo).1.db
      db.l1Messages = s.node.db.l1Messages ∧ db.l1Blocks = s.node.db.l1Blocks
  | .unwind n => (s.node.db.unwind n).isOk = false →
    let db := (s.step config (.unwind n)).node.db
    db.l1Messages = s.node.db.l1Messages ∧ db.l1Blocks = s.node.db.l1Blocks

structure Stored (config : ChainOrchestratorConfig) (s : QueueRun) : Prop where
  chained : (messageFormat config).Chained s.node.db.messageColumns
  blocks : s.node.db.messageColumns.Pairwise (fun a b => a.l1BlockNumber ≤ b.l1BlockNumber)
  next : ∀ m ∈ s.node.db.messageColumns, m.l1BlockNumber ≤ s.next

section
variable {config : ChainOrchestratorConfig} {s : QueueRun}

theorem Stored.message (h : s.Stored config) (m : TxL1Message) (l1BlockInfo : BlockInfo)
    (faults : Faults) (horder : s.next ≤ l1BlockInfo.number) :
    QueueRun.Stored config { s with
      node := (Faulty.handleL1Message s.node config faults m l1BlockInfo).1
      next := l1BlockInfo.number } := by
  have hkept {db : Db} (hsame : db.messageColumns = s.node.db.messageColumns) (node : Node)
      (hdb : node.db = db) : QueueRun.Stored config { s with
        node := node
        next := l1BlockInfo.number } := by
    subst hdb
    refine ⟨?_, ?_, ?_⟩
    · exact hsame.symm ▸ h.chained
    · exact hsame.symm ▸ h.blocks
    · intro q hq
      have hq : q ∈ node.db.messageColumns := hq
      rw [hsame] at hq
      exact (h.next q hq).trans horder
  rcases Faulty.handleL1Message_cases s.node config faults m l1BlockInfo with
    hsame | ⟨-, queueHash, db, hcompute, hstore, hnode⟩
  · rw [hsame]
    exact hkept rfl s.node rfl
  rw [hnode]
  rcases Db.storeL1Message_columns h.chained hcompute hstore with
    hsame | ⟨q, hindex, hlink, hblock, hcolumns⟩
  · exact hkept hsame { s.node with db := db } rfl
  refine ⟨?_, ?_, ?_⟩
  · change (messageFormat config).Chained db.messageColumns
    rw [hcolumns]
    exact h.chained.append hindex hlink
  · change db.messageColumns.Pairwise _
    rw [hcolumns, List.pairwise_append]
    refine ⟨h.blocks, List.pairwise_singleton _ _, ?_⟩
    intro a ha b hb
    rw [List.mem_singleton.1 hb, hblock]
    exact (h.next a ha).trans horder
  · intro a ha
    have ha : a ∈ db.messageColumns := ha
    rw [hcolumns] at ha
    rcases List.mem_append.1 ha with ha | ha
    · exact (h.next a ha).trans horder
    · rw [List.mem_singleton.1 ha, hblock]

theorem Stored.unwound (h : s.Stored config) {n : ℕ} {db : Db} {result : UnwindResult}
    (hunwind : s.node.db.unwind n = .ok (db, result)) :
    QueueRun.Stored config { s with node := { s.node with db := db }, next := n + 1 } := by
  have hcolumns := Db.unwind_messageColumns hunwind
  obtain ⟨k, hk⟩ := filter_le_eq_take h.blocks n
  refine ⟨?_, ?_, ?_⟩
  · change (messageFormat config).Chained db.messageColumns
    rw [hcolumns, hk]
    exact h.chained.take k
  · change db.messageColumns.Pairwise _
    rw [hcolumns]
    exact h.blocks.filter _
  · intro m hm
    have hm : m ∈ db.messageColumns := hm
    rw [hcolumns, List.mem_filter] at hm
    exact (of_decide_eq_true hm.2).trans (Nat.le_succ n)

/-- Actions in L1 order keep the rows one chained queue. -/
theorem stored_step (h : s.Stored config) {action : QueueAction} (horder : s.InL1Order action) :
    (s.step config action).Stored config := by
  unfold step
  split
  · exact h
  cases action with
  | message m l1BlockInfo faults => exact h.message m l1BlockInfo faults horder
  | unwind n =>
    simp only
    split
    · rename_i db result hunwind
      exact h.unwound hunwind
    · exact ⟨h.chained, h.blocks, h.next⟩

theorem failsCleanly (config : ChainOrchestratorConfig) (s : QueueRun) (action : QueueAction) :
    s.FailsCleanly config action := by
  cases action with
  | message m l1BlockInfo faults =>
    intro hfailed
    rcases Faulty.handleL1Message_cases s.node config faults m l1BlockInfo with hsame | ⟨hok, -⟩
    · rw [hsame]
      exact ⟨rfl, rfl⟩
    · rw [hok] at hfailed
      cases hfailed
  | unwind n =>
    intro hfailed
    cases hunwind : s.node.db.unwind n with
    | ok unwound =>
      rw [hunwind] at hfailed
      cases hfailed
    | error e =>
      simp only [step, hunwind]
      split <;> exact ⟨rfl, rfl⟩

/-- From an empty message table, along every run in the order of L1. -/
theorem queue_sound (config : ChainOrchestratorConfig) (node : Node)
    (hempty : node.db.l1Messages = Table.empty) (actions : List QueueAction)
    (horder : Meets (step config) InL1Order ⟨node, 0, false⟩ actions) :
    (run (step config) ⟨node, 0, false⟩ actions).node.db.QueueSound config ∧
      Meets (step config) (FailsCleanly config) ⟨node, 0, false⟩ actions := by
  have hnil : node.db.messageColumns = [] := by
    rw [Db.messageColumns, hempty]
    rfl
  have hstart : QueueRun.Stored config ⟨node, 0, false⟩ := by
    refine ⟨?_, ?_, ?_⟩
    · exact hnil.symm ▸ Format.chained_nil
    · exact hnil.symm ▸ List.Pairwise.nil
    · intro m hm
      have hm : m ∈ node.db.messageColumns := hm
      rw [hnil] at hm
      cases hm
  have hstored := horder.invariant (step config) (Stored config)
    (fun _ _ h horder => stored_step h horder) hstart
  refine ⟨?_, horder.of_invariant (step config) (fun _ => True) (fun s action _ _ =>
    ⟨trivial, failsCleanly config s action⟩) trivial⟩
  unfold Db.QueueSound
  rw [Db.messageQueue_of_chained hstored.chained]
  exact hstored.chained

end
end QueueRun

def queueConfig : ChainOrchestratorConfig := ⟨100, 1, fun rolling hash => rolling + hash + 1⟩

/-- The message with index 3 comes before that with index 2 and is refused. The one with index 2 is
unwound with its L1 block, and another one is stored in its place. -/
def queueActions : List QueueAction :=
  [.message ⟨0, 0, 100⟩ ⟨10, 110⟩ noFaults, .message ⟨1, 0, 101⟩ ⟨10, 110⟩ noFaults,
    .message ⟨3, 0, 103⟩ ⟨11, 111⟩ noFaults, .message ⟨2, 0, 102⟩ ⟨11, 111⟩ noFaults,
    .unwind 10, .message ⟨2, 0, 104⟩ ⟨12, 112⟩ noFaults]

theorem queue_sound_queueActions :
    let db := (run (QueueRun.step queueConfig) ⟨.fresh 7, 0, false⟩ queueActions).node.db
    db.messageQueue.map (fun m => (m.queueIndex, m.hash, m.queueHash)) =
        [(0, 100, none), (1, 101, some 102), (2, 104, some 207)] ∧
      db.QueueSound queueConfig :=
  ⟨by decide, (QueueRun.queue_sound _ (.fresh 7) rfl queueActions (by
    refine ⟨?_, ?_, ?_, ?_, trivial, ?_, trivial⟩ <;> unfold QueueRun.InL1Order <;> decide)).1⟩

end RollupNode
