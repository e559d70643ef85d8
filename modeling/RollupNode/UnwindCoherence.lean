import RollupNode.BatchRows
import RollupNode.GuardedRuns
import RollupNode.Orchestrator

set_option autoImplicit false

/-! The head and the safe block that an unwind leaves come from different rows. -/
namespace RollupNode
open RelationalTable GuardedRuns

/-- `unsafeBlocks` are blocks imported from a peer or sequenced. -/
inductive ChainEvent where
  | commit (batch : BatchCommitData)
  | revertRange (startIndex endIndex : ℕ) (block : BlockInfo)
  | l1Message (message : L1MessageEnvelope)
  | consolidate (outcome : BatchConsolidationOutcome)
  | unsafeBlocks (blocks : List L2BlockInfoWithL1Messages)

variable {blocks : List L2BlockInfoWithL1Messages} {db : Db}

namespace Db

def performChainEvent (db : Db) : ChainEvent → Except Abort Db
  | .commit batch => .ok (db.insertBatch batch)
  | .revertRange startIndex endIndex block =>
    .ok (db.setBatchRevertBlockNumberForBatchRange startIndex endIndex block)
  | .l1Message message => db.insertL1Message message
  | .consolidate outcome => db.insertBatchConsolidationOutcome outcome
  | .unsafeBlocks blocks => db.updateL1MessagesFromL2Blocks blocks

def indexEvent (db : Db) (event : ChainEvent) : Db :=
  match db.performChainEvent event with
  | .ok db' => db'
  | .error _ => db

/-- The blocks list messages in queue order, after the messages mapped below them and before
those mapped above. -/
def ListsInOrder (db : Db) (blocks : List L2BlockInfoWithL1Messages) : Prop :=
  ∀ m ∈ db.l1Messages, ∀ b ∈ blocks, m.hash ∈ b.l1Messages → ∀ q ∈ db.l1Messages,
    (∀ c ∈ blocks, q.hash ∈ c.l1Messages → b.blockInfo.number < c.blockInfo.number →
      m.queueIndex < q.queueIndex) ∧
    (q.hash ∉ allHashes blocks → ∀ k ∈ q.l2BlockNumber,
      (k < b.blockInfo.number → q.queueIndex < m.queueIndex) ∧
        (b.blockInfo.number < k → m.queueIndex < q.queueIndex))

/-- A batch consolidates the heights directly after the safe block, batches in the order of
their commits, and includes messages that were on L1 before its commit. -/
structure ConsolidatesNext (db : Db) (o : BatchConsolidationOutcome) : Prop where
  next : ∀ safe batch, db.getLatestSafeL2Info = .ok (safe, batch) →
    ConsecutiveFrom (safe.number + 1) o.blocks
  live : ∃ b ∈ db.l2Blocks, b.reverted = false
  commits : ∀ r ∈ db.batchCommits, r.hash = o.batchInfo.hash → ∀ b ∈ db.l2Blocks,
    b.reverted = false → ∀ q ∈ db.batchCommits, q.hash = b.batchHash → q.blockNumber ≤ r.blockNumber
  messages : ∀ r ∈ db.batchCommits, r.hash = o.batchInfo.hash → ∀ m ∈ db.l1Messages,
    m.hash ∈ allHashes o.blocks → m.l1BlockNumber ≤ r.blockNumber
  order : db.ListsInOrder o.blocks

structure ExtendsUnsafe (db : Db) (blocks : List L2BlockInfoWithL1Messages) : Prop where
  live : ∃ b ∈ db.l2Blocks, b.reverted = false
  above : ∀ b ∈ blocks, ∀ c ∈ db.l2Blocks, c.reverted = false → c.blockNumber < b.blockInfo.number
  order : ∀ first ∈ blocks.head?,
    (db.unmapWhere (first.blockInfo.number ≤ ·)).ListsInOrder blocks

/-- Events arrive in L1 order, with batches and unsafe blocks built as above. -/
def InL1Order (db : Db) : ChainEvent → Prop
  | .commit batch => ∀ r ∈ db.batchCommits, r.blockNumber ≤ batch.blockNumber
  | .revertRange _ _ _ => True
  | .l1Message message => message.l2BlockNumber = none
  | .consolidate outcome => db.ConsolidatesNext outcome
  | .unsafeBlocks blocks => db.ExtendsUnsafe blocks

/-- A consolidation lists every message that is mapped to one of its blocks. -/
def ListsMapped (db : Db) : ChainEvent → Prop
  | .consolidate outcome => ∀ m ∈ db.l1Messages, m.hash ∉ allHashes outcome.blocks →
      ∀ k ∈ m.l2BlockNumber, ∀ b ∈ outcome.blocks, b.blockInfo.number ≠ k
  | _ => True

/-- Mapped messages are in queue order, and a message that is mapped at or below a live block
was on L1 before the commit of that block's batch. -/
structure Anchored (db : Db) : Prop where
  ordered : ∀ m ∈ db.l1Messages, ∀ q ∈ db.l1Messages, ∀ k ∈ m.l2BlockNumber,
    ∀ j ∈ q.l2BlockNumber, k < j → m.queueIndex < q.queueIndex
  positive : ∀ m ∈ db.l1Messages, ∀ k ∈ m.l2BlockNumber, 0 < k
  committed : ∀ m ∈ db.l1Messages, ∀ k ∈ m.l2BlockNumber, ∀ b ∈ db.l2Blocks,
    b.reverted = false → k ≤ b.blockNumber →
      ∃ r ∈ db.batchCommits, r.hash = b.batchHash ∧ m.l1BlockNumber ≤ r.blockNumber

theorem anchored_migrated (genesisHash : B256) : (migrated genesisHash).Anchored := by
  have hnone : ∀ m : L1MessageRow, m ∉ (migrated genesisHash).l1Messages := fun m hm => by cases hm
  exact ⟨fun m hm => absurd hm (hnone m), fun m hm => absurd hm (hnone m),
    fun m hm => absurd hm (hnone m)⟩

theorem Anchored.of_tables {db' : Db} (h : db.Anchored) (hmessages : db'.l1Messages = db.l1Messages)
    (hblocks : ∀ b' ∈ db'.l2Blocks, b'.reverted = false → ∃ b ∈ db.l2Blocks, b.reverted = false ∧
      b.blockNumber = b'.blockNumber ∧ b.batchHash = b'.batchHash)
    (hcommits : ∀ r ∈ db.batchCommits, ∃ r' ∈ db'.batchCommits, r'.hash = r.hash ∧
      r.blockNumber ≤ r'.blockNumber) : db'.Anchored := by
  refine ⟨?_, ?_, ?_⟩
  · rw [hmessages]
    exact h.ordered
  · rw [hmessages]
    exact h.positive
  · intro m hm k hk b' hb' hlive hle
    rw [hmessages] at hm
    obtain ⟨b, hb, hblive, hnumber, hhash⟩ := hblocks b' hb' hlive
    obtain ⟨r, hr, hrhash, hl1⟩ := h.committed m hm k hk b hb hblive (by omega)
    obtain ⟨r', hr', hrhash', hraised⟩ := hcommits r hr
    exact ⟨r', hr', hrhash'.trans (hrhash.trans hhash), hl1.trans hraised⟩

theorem anchored_insertBatch (h : db.Anchored) (batch : BatchCommitData)
    (horder : ∀ r ∈ db.batchCommits, r.blockNumber ≤ batch.blockNumber) :
    (db.insertBatch batch).Anchored := by
  refine h.of_tables rfl (fun b hb hlive => ⟨b, hb, hlive, rfl, rfl⟩) ?_
  intro r hr
  by_cases hhash : r.hash = batch.hash
  · -- a hash that is committed again moves its row to the later block
    obtain ⟨r', hr', hkey, hrow⟩ := Table.exists_mem_upsert db.batchCommits (.ofCommitData batch)
      (fun r => { r with
        index := batch.index
        blockNumber := batch.blockNumber
        blockTimestamp := batch.blockTimestamp
        calldata := batch.calldata
        blobHash := batch.blobVersionedHash
        finalizedBlockNumber := none }) (fun _ => rfl)
    refine ⟨r', hr', hkey.trans hhash.symm, ?_⟩
    have hnumber : r'.blockNumber = batch.blockNumber := by
      rcases hrow with rfl | ⟨q, _, rfl⟩
      · rfl
      · rfl
    rw [hnumber]
    exact horder r hr
  · exact ⟨r, Table.mem_upsert_of_key_ne _ _ _ _ hr hhash, rfl, le_refl _⟩

theorem anchored_revertRange (h : db.Anchored) (first last : ℕ) (block : BlockInfo) :
    (db.setBatchRevertBlockNumberForBatchRange first last block).Anchored := by
  refine h.of_tables rfl ?_ ?_
  · intro b' hb' hlive
    obtain ⟨b, hb, ⟨_, rfl⟩ | ⟨_, rfl⟩⟩ := Table.cases_of_mem_update hb'
    · cases hlive
    · exact ⟨_, hb, hlive, rfl, rfl⟩
  · intro r hr
    refine ⟨_, List.mem_map_of_mem hr, ?_⟩
    split
    · exact ⟨rfl, le_refl _⟩
    · exact ⟨rfl, le_refl _⟩

theorem Anchored.of_mapped (h : db.Anchored) {messages : Table L1MessageRow.queueIndex}
    (hmapped : ∀ m ∈ messages, ∀ k ∈ m.l2BlockNumber, m ∈ db.l1Messages) :
    Anchored { db with l1Messages := messages } := by
  refine ⟨?_, ?_, ?_⟩
  · intro m hm q hq k hk j hj
    exact h.ordered m (hmapped m hm k hk) q (hmapped q hq j hj) k hk j hj
  · intro m hm k hk
    exact h.positive m (hmapped m hm k hk) k hk
  · intro m hm k hk
    exact h.committed m (hmapped m hm k hk) k hk

theorem anchored_insertL1Message {db' : Db} (h : db.Anchored) {message : L1MessageEnvelope}
    (hfresh : message.l2BlockNumber = none) (hok : db.insertL1Message message = .ok db') :
    db'.Anchored := by
  obtain rfl | ⟨hnew, rfl⟩ := insertL1Message_ok hok
  · exact h
  refine h.of_mapped ?_
  intro m hm k hk
  rcases (db.l1Messages.mem_insertNew _ hnew m).1 hm with hm | rfl
  · exact hm
  · change message.l2BlockNumber = some k at hk
    rw [hfresh] at hk
    cases hk

theorem anchored_unmapWhere (h : db.Anchored) (p : ℕ → Bool) : (db.unmapWhere p).Anchored := by
  refine h.of_mapped ?_
  intro m hm k hk
  obtain ⟨q, hq, ⟨_, rfl⟩ | ⟨_, rfl⟩⟩ := Table.cases_of_mem_update hm
  · cases hk
  · exact hq

def MapsAs (db : Db) (blocks : List L2BlockInfoWithL1Messages) (db' : Db) : Prop :=
  ∀ m' ∈ db'.l1Messages, ∃ m ∈ db.l1Messages, m'.transaction = m.transaction ∧
    m'.l1BlockNumber = m.l1BlockNumber ∧
    m'.l2BlockNumber = if m.hash ∈ allHashes blocks then caseNumber blocks m.hash else m.l2BlockNumber

theorem mapsAs_updateL1MessagesWithL2Blocks (db : Db) (blocks : List L2BlockInfoWithL1Messages) :
    db.MapsAs blocks (db.updateL1MessagesWithL2Blocks blocks) := by
  intro m' hm'
  obtain ⟨m, hm, ⟨hp, rfl⟩ | ⟨hp, rfl⟩⟩ := Table.cases_of_mem_update hm'
  · exact ⟨m, hm, rfl, rfl, (if_pos (of_decide_eq_true hp)).symm⟩
  · exact ⟨_, hm, rfl, rfl, (if_neg (of_decide_eq_false hp)).symm⟩

theorem mapsAs_consolidated (db : Db) (o : BatchConsolidationOutcome) :
    db.MapsAs o.blocks (db.consolidated o) := by
  intro m' hm'
  obtain ⟨m, hm, rfl⟩ := (db.mem_consolidated_l1Messages o m').1 hm'
  exact ⟨m, hm, rfl, rfl, rfl⟩

theorem MapsAs.cases {db' : Db} {k : ℕ} (h : db.MapsAs blocks db') {m' : L1MessageRow}
    (hm' : m' ∈ db'.l1Messages) (hk : k ∈ m'.l2BlockNumber) :
    ∃ m ∈ db.l1Messages, m'.queueIndex = m.queueIndex ∧ m'.l1BlockNumber = m.l1BlockNumber ∧
      ((∃ b ∈ blocks, m.hash ∈ b.l1Messages ∧ b.blockInfo.number = k) ∨
        (m.hash ∉ allHashes blocks ∧ k ∈ m.l2BlockNumber)) := by
  obtain ⟨m, hm, htx, hl1, hl2⟩ := h m' hm'
  refine ⟨m, hm, congrArg TxL1Message.queueIndex htx, hl1, ?_⟩
  rw [hl2] at hk
  by_cases hlisted : m.hash ∈ allHashes blocks
  · rw [if_pos hlisted] at hk
    obtain ⟨b, hb, hmem, hcase⟩ := caseNumber_of_mem blocks m.hash hlisted
    rw [hcase] at hk
    exact Or.inl ⟨b, hb, hmem, Option.some.inj hk⟩
  · rw [if_neg hlisted] at hk
    exact Or.inr ⟨hlisted, hk⟩

theorem MapsAs.ordered {db' : Db} (h : db.MapsAs blocks db') (ha : db.Anchored)
    (hlists : db.ListsInOrder blocks) :
    ∀ m ∈ db'.l1Messages, ∀ q ∈ db'.l1Messages, ∀ k ∈ m.l2BlockNumber, ∀ j ∈ q.l2BlockNumber,
      k < j → m.queueIndex < q.queueIndex := by
  intro m' hm' q' hq' k hk j hj hlt
  obtain ⟨m, hm, hmi, -, hmk⟩ := h.cases hm' hk
  obtain ⟨q, hq, hqi, -, hqj⟩ := h.cases hq' hj
  rw [hmi, hqi]
  rcases hmk with ⟨b, hb, hmb, rfl⟩ | ⟨hml, hmk⟩
  · rcases hqj with ⟨c, hc, hqc, rfl⟩ | ⟨hql, hqj⟩
    · exact (hlists m hm b hb hmb q hq).1 c hc hqc hlt
    · exact ((hlists m hm b hb hmb q hq).2 hql j hqj).2 hlt
  · rcases hqj with ⟨c, hc, hqc, rfl⟩ | ⟨hql, hqj⟩
    · exact ((hlists q hq c hc hqc m hm).2 hml k hmk).1 hlt
    · exact ha.ordered m hm q hq k hmk j hqj hlt

theorem anchored_updateL1MessagesWithL2Blocks (h : db.Anchored)
    (hlive : ∃ c ∈ db.l2Blocks, c.reverted = false)
    (habove : ∀ b ∈ blocks, ∀ c ∈ db.l2Blocks, c.reverted = false →
      c.blockNumber < b.blockInfo.number) (hlists : db.ListsInOrder blocks) :
    (db.updateL1MessagesWithL2Blocks blocks).Anchored := by
  have hmaps := db.mapsAs_updateL1MessagesWithL2Blocks blocks
  obtain ⟨live, hlive, hreverted⟩ := hlive
  refine ⟨hmaps.ordered h hlists, ?_, ?_⟩
  · intro m' hm' k hk
    obtain ⟨m, hm, -, -, ⟨b, hb, _, rfl⟩ | ⟨_, hmk⟩⟩ := hmaps.cases hm' hk
    · have hlt := habove b hb live hlive hreverted
      omega
    · exact h.positive m hm k hmk
  · intro m' hm' k hk c hc hclive hle
    obtain ⟨m, hm, -, hl1, ⟨b, hb, _, rfl⟩ | ⟨_, hmk⟩⟩ := hmaps.cases hm' hk
    · have hlt := habove b hb c hc hclive
      omega
    · rw [hl1]
      exact h.committed m hm k hmk c hc hclive hle

theorem anchored_unsafeBlocks {db' : Db} (h : db.Anchored) (hext : db.ExtendsUnsafe blocks)
    (hok : db.updateL1MessagesFromL2Blocks blocks = .ok db') : db'.Anchored := by
  cases blocks with
  | nil =>
    simp only [updateL1MessagesFromL2Blocks, purgeL1MessageToL2BlockMappings, List.head?_nil,
      Option.map_none, bind, Except.bind] at hok
    cases hsafe : db.getLatestSafeL2Info with
    | error e =>
      rw [hsafe] at hok
      cases hok
    | ok info =>
      rw [hsafe] at hok
      cases hok
      exact anchored_updateL1MessagesWithL2Blocks (anchored_unmapWhere h _) hext.live hext.above
        (fun m _ b hb => by cases hb)
  | cons first rest =>
    cases hok
    exact anchored_updateL1MessagesWithL2Blocks (anchored_unmapWhere h _) hext.live hext.above
      (hext.order first rfl)

theorem anchored_consolidated (h : db.Anchored) {o : BatchConsolidationOutcome}
    (haccepts : db.Accepts o) (hnext : db.ConsolidatesNext o)
    (hlisted : db.ListsMapped (.consolidate o)) : (db.consolidated o).Anchored := by
  have hmaps := db.mapsAs_consolidated o
  obtain ⟨⟨safe, batch⟩, hsafe⟩ := db.getLatestSafeL2Info_ok_iff.2 hnext.live
  have hconsecutive := hnext.next safe batch hsafe
  obtain ⟨top, htop, htoplive, rfl, -, hmax⟩ := getLatestSafeL2Info_spec hsafe
  have habove : ∀ b ∈ o.blocks, top.blockNumber < b.blockInfo.number := by
    intro b hb
    exact ((hconsecutive.mem_number b.blockInfo.number).1 ⟨b, hb, rfl⟩).1
  have hcommits : ∀ (hash : B256) (l1 : ℕ),
      (∃ r ∈ db.batchCommits, r.hash = hash ∧ l1 ≤ r.blockNumber) →
        ∃ r ∈ (db.consolidated o).batchCommits, r.hash = hash ∧ l1 ≤ r.blockNumber := by
    rintro hash l1 ⟨r, hr, hhash, hle⟩
    refine ⟨_, List.mem_map_of_mem hr, ?_⟩
    split
    · exact ⟨hhash, hle⟩
    · exact ⟨hhash, hle⟩
  refine ⟨hmaps.ordered h hnext.order, ?_, ?_⟩
  · intro m' hm' k hk
    obtain ⟨m, hm, -, -, ⟨b, hb, _, rfl⟩ | ⟨_, hmk⟩⟩ := hmaps.cases hm' hk
    · have hlt := habove b hb
      omega
    · exact h.positive m hm k hmk
  · intro m' hm' k hk c hc hclive hle
    obtain ⟨m, hm, -, hl1, hmapped⟩ := hmaps.cases hm' hk
    rw [hl1]
    refine hcommits _ _ ?_
    have hc' : c ∈ ((db.setL2HeadBlockNumber (db.headAfter o)).withBlocks
      (o.blocks.map (·.blockInfo)) o.batchInfo).l2Blocks := hc
    rcases cases_of_mem_withBlocks hc' with hold | ⟨hhash, block, hblock, hnumber⟩
    · -- the live blocks so far are below the batch, so only older mappings concern them
      have hcle := hmax c hold hclive
      rcases hmapped with ⟨b, hb, _, rfl⟩ | ⟨_, hmk⟩
      · have hlt := habove b hb
        omega
      · exact h.committed m hm k hmk c hold hclive hle
    · obtain ⟨b, hb, rfl⟩ := List.mem_map.1 hblock
      obtain ⟨r, hr, hrhash⟩ := haccepts.batch (List.ne_nil_of_mem hb)
      refine ⟨r, hr, hrhash.trans hhash.symm, ?_⟩
      rcases hmapped with ⟨listing, hlisting, hmb, -⟩ | ⟨hml, hmk⟩
      · exact hnext.messages r hr hrhash m hm ((mem_allHashes _ _).2 ⟨listing, hlisting, hmb⟩)
      · -- an unlisted message is mapped below the batch, under the safe block
        have hbelow : k ≤ top.blockNumber := by
          by_contra hgt
          have hrange := (hconsecutive.mem_number b.blockInfo.number).1 ⟨b, hb, rfl⟩
          obtain ⟨listing, hlisting, heq⟩ := (hconsecutive.mem_number k).2
            ⟨by change top.blockNumber + 1 ≤ k; omega, by omega⟩
          exact hlisted m hm hml k hmk listing hlisting heq
        obtain ⟨q, hq, hqhash, hql1⟩ := h.committed m hm k hmk top htop htoplive hbelow
        exact hql1.trans (hnext.commits r hr hrhash top htop htoplive q hq hqhash)

theorem anchored_indexEvent (h : db.Anchored) (event : ChainEvent) (horder : db.InL1Order event)
    (hlisted : db.ListsMapped event) : (db.indexEvent event).Anchored := by
  unfold indexEvent
  split
  · rename_i db' hok
    cases event with
    | commit batch =>
      cases hok
      exact anchored_insertBatch h batch horder
    | revertRange startIndex endIndex block =>
      cases hok
      exact anchored_revertRange h startIndex endIndex block
    | l1Message message => exact anchored_insertL1Message h horder hok
    | consolidate outcome =>
      obtain ⟨haccepts, rfl⟩ := (db.insertBatchConsolidationOutcome_eq_ok db' outcome).1 hok
      exact anchored_consolidated h haccepts horder hlisted
    | unsafeBlocks blocks => exact anchored_unsafeBlocks h horder hok
  · exact h

theorem Anchored.loweredHead_spec {n : ℕ} (h : db.Anchored) {head : ℕ}
    (hhead : db.loweredHead n = some head) :
    (∃ m ∈ db.l1Messages, n < m.l1BlockNumber ∧ m.l2BlockNumber = some (head + 1)) ∧
      ∀ m ∈ db.l1Messages, n < m.l1BlockNumber → ∀ k ∈ m.l2BlockNumber, head + 1 ≤ k := by
  unfold loweredHead at hhead
  obtain ⟨number, hbind, hnumber⟩ := Option.map_eq_some_iff.1 hhead
  obtain ⟨e, he, hmapped⟩ := Option.bind_eq_some_iff.1 hbind
  obtain ⟨hmem, hleast⟩ := head_orderBy he
  obtain ⟨m, hm, hlt, -, rfl⟩ := (db.mem_removed n _).1 hmem
  have hpos := h.positive m hm number hmapped
  have hsucc : head + 1 = number := by omega
  constructor
  · rw [hsucc]
    exact ⟨m, hm, hlt, hmapped⟩
  · intro q hq hqlt k hk
    by_contra hbelow
    have hqueue : q.queueIndex < m.queueIndex :=
      h.ordered q hq m hm k hk number hmapped (by omega)
    have hle : m.queueIndex ≤ q.queueIndex := hleast _ ((db.mem_removed n _).2
      ⟨q, hq, hqlt, Option.isSome_iff_exists.2 ⟨k, hk⟩, rfl⟩)
    omega

/-- What an unwind to `n` may report and leave behind. -/
structure CoherentUnwind (db : Db) (n : ℕ) (db' : Db) (result : UnwindResult) : Prop where
  lowest : ∀ head ∈ result.l2HeadBlockNumber,
    (∃ m ∈ db.l1Messages, n < m.l1BlockNumber ∧ m.l2BlockNumber = some (head + 1)) ∧
      ∀ m ∈ db.l1Messages, n < m.l1BlockNumber → ∀ k ∈ m.l2BlockNumber, head + 1 ≤ k
  purged : ∀ head ∈ result.l2HeadBlockNumber, ∀ m ∈ db'.l1Messages, ∀ k ∈ m.l2BlockNumber, k ≤ head
  aboveSafe : ∀ head ∈ result.l2HeadBlockNumber, ∀ safe batch,
    db'.getLatestSafeL2Info = .ok (safe, batch) → safe.number ≤ head
  aboveReported : ∀ head ∈ result.l2HeadBlockNumber, ∀ safe ∈ result.l2SafeBlockInfo,
    safe.number ≤ head
  unmapped : (∀ m ∈ db.l1Messages, n < m.l1BlockNumber → m.l2BlockNumber = none) →
    result.l2HeadBlockNumber = none ∧ db'.l2HeadBlock = db.l2HeadBlock ∧
      ∀ m, m ∈ db'.l1Messages ↔ m ∈ db.l1Messages ∧ m.l1BlockNumber ≤ n

/-- The blocks of a batch that an unwind brings back are below the blocks that included the
messages it removes. -/
def RestoresBelow (db : Db) (n : ℕ) : Prop :=
  ∀ b ∈ db.l2Blocks, db.Restores n b.batchHash → ∀ m ∈ db.l1Messages, n < m.l1BlockNumber →
    ∀ k ∈ m.l2BlockNumber, b.blockNumber < k

theorem Anchored.lt_of_live {k n : ℕ} {b : L2BlockRow} {m : L1MessageRow} (h : db.Anchored)
    (hbelow : db.RestoresBelow n) (hb : b ∈ (db.withoutAbove n).l2Blocks)
    (hlive : b.reverted = false) (hm : m ∈ db.l1Messages) (hlt : n < m.l1BlockNumber)
    (hk : k ∈ m.l2BlockNumber) :
    b.blockNumber < k := by
  obtain ⟨c, hc, hkept, ⟨hrestored, rfl⟩ | ⟨_, rfl⟩⟩ := (db.mem_withoutAbove_l2Blocks n b).1 hb
  · exact hbelow c hc hrestored m hm hlt k hk
  · -- a live block at or above the message would be of a batch that is removed as well
    by_contra hge
    obtain ⟨r, hr, hhash, hl1⟩ := h.committed m hm k hk _ hc hlive (by omega)
    exact hkept ⟨r, hr, by omega, hhash⟩

theorem withoutAbove_l1Messages (db : Db) (n : ℕ) (m : L1MessageRow) :
    m ∈ (db.withoutAbove n).l1Messages ↔ m ∈ db.l1Messages ∧ m.l1BlockNumber ≤ n := by
  change m ∈ db.l1Messages.deleteWhere (fun r => n < r.l1BlockNumber) ↔ _
  rw [Table.mem_deleteWhere, decide_eq_false_iff_not, Nat.not_lt]

theorem withHead_purges {k : ℕ} {m : L1MessageRow} (db : Db) (head : ℕ)
    (hm : m ∈ (db.withHead (some head)).l1Messages) (hk : k ∈ m.l2BlockNumber) :
    k ≤ head := by
  have hnot : ¬head + 1 ≤ k := of_decide_eq_false (kept_of_mem_unmapWhere hm hk)
  omega

theorem getLatestSafeL2Info_unwound (db : Db) (n : ℕ) (head : Option ℕ) :
    ((db.withoutAbove n).withHead head).getLatestSafeL2Info =
      (db.withoutAbove n).getLatestSafeL2Info :=
  getLatestSafeL2Info_congr (withHead_l2Blocks _ _)

theorem Anchored.coherentUnwind {db' : Db} {n : ℕ} (h : db.Anchored) {result : UnwindResult}
    (hbelow : db.RestoresBelow n) (hok : db.unwind n = .ok (db', result)) :
    db.CoherentUnwind n db' result := by
  obtain ⟨rfl, -, hhead, hreport⟩ := unwind_ok hok
  have hsafe : ∀ head ∈ result.l2HeadBlockNumber, ∀ safe batch,
      (db.withoutAbove n).getLatestSafeL2Info = .ok (safe, batch) → safe.number ≤ head := by
    intro head hmem safe batch hinfo
    rw [hhead] at hmem
    obtain ⟨⟨m, hm, hlt, hk⟩, -⟩ := h.loweredHead_spec hmem
    obtain ⟨b, hb, hlive, rfl, -⟩ := getLatestSafeL2Info_spec hinfo
    have hb' := h.lt_of_live hbelow hb hlive hm hlt hk
    change b.blockNumber ≤ head
    omega
  refine ⟨?_, ?_, ?_, ?_, ?_⟩
  · intro head hmem
    exact h.loweredHead_spec (hhead ▸ hmem)
  · intro head hmem m hm k hk
    rw [← hhead, Option.mem_def.1 hmem] at hm
    exact withHead_purges _ head hm hk
  · intro head hmem safe batch hinfo
    rw [getLatestSafeL2Info_unwound] at hinfo
    exact hsafe head hmem safe batch hinfo
  · intro head hmem safe hreported
    rw [Option.mem_def.1 hreported] at hreport
    cases hreport with
    | recomputed _ batch _ hinfo => exact hsafe head hmem safe batch hinfo
  · intro hunmapped
    have hnone := (db.loweredHead_eq_none n).2 hunmapped
    rw [hhead, hnone]
    exact ⟨rfl, rfl, db.withoutAbove_l1Messages n⟩

theorem unwind_ok_of_restores {n : ℕ} {b : L2BlockRow} (hb : b ∈ db.l2Blocks)
    (hrestores : db.Restores n b.batchHash) :
    ∃ result safe batch, db.unwind n =
        .ok ((db.withoutAbove n).withHead (db.loweredHead n), result) ∧
      result.l2HeadBlockNumber = db.loweredHead n ∧
      (db.withoutAbove n).getLatestSafeL2Info = .ok (safe, batch) ∧ b.blockNumber ≤ safe.number := by
  obtain ⟨r, hr, hle, hreverted, hhash⟩ := hrestores
  have hkept : ¬db.Removes n b.batchHash := hhash ▸ not_removes_of_le hr hle
  have hback : { b with reverted := false } ∈ (db.withoutAbove n).l2Blocks :=
    (db.mem_withoutAbove_l2Blocks n _).2
      ⟨b, hb, hkept, Or.inl ⟨⟨r, hr, hle, hreverted, hhash⟩, rfl⟩⟩
  obtain ⟨⟨safe, batch⟩, hsafe⟩ := (db.withoutAbove n).getLatestSafeL2Info_ok_iff.2
    ⟨_, hback, rfl⟩
  have hmoves : db.movesSafe n := ⟨r, hr, Or.inr hreverted⟩
  refine ⟨db.unwindResult n (some safe), safe, batch, ?_, rfl, hsafe, ?_⟩
  · rw [unwind_eq, recomputedSafe, if_pos hmoves, hsafe]
    rfl
  · obtain ⟨top, -, -, rfl, -, hmax⟩ := getLatestSafeL2Info_spec hsafe
    have hmaxb := hmax _ hback rfl
    exact hmaxb

theorem Anchored.restoresBelow {n : ℕ} (h : db.Anchored)
    (hcoherent : ∀ db' result, db.unwind n = .ok (db', result) → db.CoherentUnwind n db' result) :
    db.RestoresBelow n := by
  intro b hb hrestores m hm hlt k hk
  obtain ⟨result, safe, batch, hok, hhead, hsafe, hle⟩ := unwind_ok_of_restores hb hrestores
  have hc := hcoherent _ result hok
  cases hlowered : db.loweredHead n with
  | none =>
    have hnone := (db.loweredHead_eq_none n).1 hlowered m hm hlt
    rw [hnone] at hk
    cases hk
  | some head =>
    have hmem : head ∈ result.l2HeadBlockNumber := hhead.trans hlowered
    have hsafe' := hc.aboveSafe head hmem safe batch
      ((db.getLatestSafeL2Info_unwound n _).trans hsafe)
    have hk' := (h.loweredHead_spec hlowered).2 m hm hlt k hk
    omega

end Db

/-- Every unwind to `n` that succeeds reports and leaves a coherent head and safe block. -/
def UnwindCoherent (db : Db) (n : ℕ) : Prop :=
  ∀ db' result, db.unwind n = .ok (db', result) → db.CoherentUnwind n db' result

/-- Unwinds leave a coherent head and safe block exactly when restored batches stay below the blocks
of removed messages. -/
theorem unwindCoherent_iff (genesisHash : B256) (events : List ChainEvent) (n : ℕ)
    (horder : Meets Db.indexEvent Db.InL1Order (migrated genesisHash) events)
    (hlisted : Meets Db.indexEvent Db.ListsMapped (migrated genesisHash) events) :
    UnwindCoherent (run Db.indexEvent (migrated genesisHash) events) n ↔
      (run Db.indexEvent (migrated genesisHash) events).RestoresBelow n := by
  have hanchored : (run Db.indexEvent (migrated genesisHash) events).Anchored := by
    refine (horder.and Db.indexEvent hlisted).invariant Db.indexEvent Db.Anchored ?_
      (Db.anchored_migrated genesisHash)
    intro db event hdb hcond
    exact Db.anchored_indexEvent hdb event hcond.1 hcond.2
  constructor
  · exact hanchored.restoresBelow
  · intro hbelow db' result hok
    exact hanchored.coherentUnwind hbelow hok

/-- Batch 1 includes the message of L1 block 5, is reverted at 20 and committed again at 30.
Its second version includes a message of L1 block 25, in block 3 or already in block 2. -/
def recommitted (early : Bool) : List ChainEvent :=
  [.l1Message includedMessage, .commit firstCommit,
    .consolidate ⟨⟨1, 11⟩, [⟨⟨1, 21⟩, [100]⟩, ⟨⟨2, 22⟩, []⟩], [], .consolidated, true⟩,
    .revertRange 1 1 ⟨20, 120⟩, .l1Message ⟨⟨1, 21000, 101⟩, 25, none, none⟩,
    .commit ⟨12, 1, 30, 0, [], none, none, none⟩,
    .consolidate ⟨⟨1, 12⟩, [⟨⟨1, 21⟩, [100]⟩, ⟨⟨2, 23⟩, if early then [101] else []⟩,
      ⟨⟨3, 24⟩, if early then [] else [101]⟩], [], .consolidated, true⟩]

theorem consecutive_after_safe {safe : BlockInfo} {batch : BatchInfo}
    (hsafe : db.getLatestSafeL2Info = .ok (safe, batch))
    (hc : ConsecutiveFrom (safe.number + 1) blocks) : ∀ safe' batch',
      db.getLatestSafeL2Info = .ok (safe', batch') → ConsecutiveFrom (safe'.number + 1) blocks := by
  intro safe' batch' hsafe'
  rw [hsafe] at hsafe'
  cases hsafe'
  exact hc

theorem inL1Order_recommitted (early : Bool) :
    Meets Db.indexEvent Db.InL1Order (migrated 7) (recommitted early) := by
  refine ⟨rfl, by unfold Db.InL1Order; decide, ?_, trivial, rfl, ?_, ?_, trivial⟩
  · refine ⟨consecutive_after_safe rfl ⟨rfl, rfl, trivial⟩, by decide, by decide, by decide, ?_⟩
    unfold Db.ListsInOrder
    decide
  · cases early <;> (unfold Db.InL1Order; decide)
  · cases early
    all_goals
      refine ⟨consecutive_after_safe rfl ⟨rfl, rfl, rfl, trivial⟩, by decide, by decide,
        by decide, ?_⟩
      unfold Db.ListsInOrder
      decide

theorem listsMapped_recommitted (early : Bool) :
    Meets Db.indexEvent Db.ListsMapped (migrated 7) (recommitted early) := by
  refine ⟨trivial, trivial, ?_, trivial, trivial, trivial, ?_, trivial⟩
  · unfold Db.ListsMapped
    decide
  · cases early <;> (unfold Db.ListsMapped; decide)

/-- With the second message in block 3 the batch that comes back ends below it. -/
theorem unwindCoherent_recommittedLate :
    UnwindCoherent (run Db.indexEvent (migrated 7) (recommitted false)) 15 := by
  refine (unwindCoherent_iff 7 (recommitted false) 15 (inL1Order_recommitted false)
    (listsMapped_recommitted false)).2 ?_
  unfold Db.RestoresBelow Db.Restores
  decide

def onRecommitted : Node where
  db := run Db.indexEvent (migrated 7) (recommitted true)
  fcs := ⟨⟨3, 24⟩, ⟨3, 24⟩, ⟨0, 7⟩⟩
  syncState := ⟨true, true⟩
  sequencer := none
  pipeline := []
  held := none
  attemptScheduled := false

/-- With the second message in block 2 the unwind lowers the head to block 1 and brings back a
safe block 2, which the forkchoice state refuses. -/
theorem unwind_restores_safe_above_head :
    Meets Db.indexEvent Db.InL1Order (migrated 7) (recommitted true) ∧
      ¬UnwindCoherent (run Db.indexEvent (migrated 7) (recommitted true)) 15 ∧
      (onRecommitted.handleL1Reorg 15 (.ofChain [emptyBlock 0 7 0, emptyBlock 1 21 7,
          emptyBlock 2 23 21, emptyBlock 3 24 23]) (.ok (.ofStatus .valid))).2 =
        .error (.error (.unwindForkchoiceUpdateFailed "L1 reorg" (some ⟨2, 22⟩) ⟨3, 24⟩
          (EngineError.fcsError .headBelowSafe).message)) := by
  refine ⟨inL1Order_recommitted true, ?_, rfl⟩
  intro h
  have hsafe := (h _ _ rfl).aboveSafe 1 rfl ⟨2, 22⟩ ⟨1, 11⟩ rfl
  revert hsafe
  decide

end RollupNode
