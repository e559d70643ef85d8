import RollupNode.AttemptBlocks
import RollupNode.BatchRows
import RollupNode.GuardedRuns
import RollupNode.Orchestrator

set_option autoImplicit false

/-! The finalized L2 block: L1 notifications and the derivation pipeline both move it. -/
namespace RollupNode
open RelationalTable GuardedRuns

inductive FinalizationEvent where
  | batchCommit (blockInfo : BlockInfo) (batch : BatchCommitData)
  | batchFinalization (batchIndex : ℕ) (l1BlockInfo : BlockInfo)
  | l1Finalized (blockNumber : ℕ) (reply : Reply ForkchoiceUpdated)
  | derived (batch : BatchDerivationResult)
  | attempt (client : L2Client) (replies : ℕ → ActionReplies)

variable {block : L2BlockRow} {db db' : Db}

namespace Db

def WaitsAbove (db : Db) (number : ℕ) (p : BatchCommitRow → Prop) : Prop :=
  ∀ r ∈ db.batchCommits, r.status = .consolidated → p r → db.HasBlock r.hash →
    db.HasBlockAbove r.hash number

instance (db : Db) (hash : B256) : Decidable (db.HasBlock hash) :=
  inferInstanceAs (Decidable (∃ b ∈ db.l2Blocks, b.batchHash = hash))

instance (db : Db) (hash : B256) (number : ℕ) : Decidable (db.HasBlockAbove hash number) :=
  inferInstanceAs (Decidable (∃ b ∈ db.l2Blocks, b.batchHash = hash ∧ number < b.blockNumber))

instance (db : Db) (number : ℕ) (p : BatchCommitRow → Prop) [DecidablePred p] :
    Decidable (db.WaitsAbove number p) :=
  inferInstanceAs (Decidable (∀ r ∈ db.batchCommits, r.status = .consolidated → p r →
    db.HasBlock r.hash → db.HasBlockAbove r.hash number))

theorem WaitsAbove.of_keepsConsolidated {number : ℕ} (h : db.WaitsAbove number (fun _ => True))
    (hrows : db.KeepsConsolidated db') (hblocks : db'.l2Blocks = db.l2Blocks) :
    db'.WaitsAbove number (fun _ => True) := by
  intro r hr hc _ hblock
  obtain ⟨q, hq, hqc, hhash⟩ := hrows r hr hc
  unfold HasBlock at hblock
  unfold HasBlockAbove
  rw [hblocks, ← hhash] at hblock ⊢
  exact h q hq hqc trivial hblock

theorem HasBlockAbove.lastBlockOf {hash : B256} {number : ℕ} (h : db.HasBlockAbove hash number)
    (hlast : db.lastBlockOf hash = some block) : number < block.blockNumber := by
  obtain ⟨b, hb, hhash, hnumber⟩ := h
  have hle : b.blockNumber ≤ block.blockNumber :=
    le_highest hlast ((db.l2Blocks.mem_select _ b).2 ⟨hb, decide_eq_true hhash⟩)
  omega

theorem hasBlock_of_lastBlockOf {hash : B256} (h : db.lastBlockOf hash = some block) :
    db.HasBlock hash := by
  obtain ⟨hmem, hhash⟩ := (db.l2Blocks.mem_select _ block).1 (highest_mem h)
  exact ⟨block, hmem, of_decide_eq_true hhash⟩

end Db

namespace Node

def handle (node : Node) : FinalizationEvent → Node
  | .batchCommit blockInfo batch => (node.handleBatchCommit blockInfo batch).1
  | .batchFinalization batchIndex l1BlockInfo =>
    (node.handleBatchFinalization batchIndex l1BlockInfo).1
  | .l1Finalized blockNumber reply => (node.handleL1Finalized blockNumber reply).1
  | .derived batch => node.holdBatch batch
  | .attempt client replies => (node.runAttempt client replies).1

def AttemptCompletes (node : Node) : FinalizationEvent → Prop
  | .attempt client replies => ∃ outcome, (node.runAttempt client replies).2 = .ok (.completed outcome)
  | _ => True

/-- A batch derived as final is below the consolidated batches that still wait, a batch
derived as consolidated is above the finalized block. -/
def DerivesInOrder (node : Node) (batch : BatchDerivationResult) : Prop :=
  if batch.targetStatus.isFinalized then
    ∀ a ∈ batch.attributes,
      node.db.WaitsAbove a.blockNumber (fun r => r.hash ≠ batch.batchInfo.hash)
  else batch.attributes ≠ [] ∧ ∀ a ∈ batch.attributes, node.fcs.finalized.number < a.blockNumber

/-- Nothing is finalized over a consolidated batch that still waits: an L1 finalized
notification leaves no lower batch behind, and batches are derived in order. -/
def FinalizesInOrder (node : Node) : FinalizationEvent → Prop
  | .l1Finalized blockNumber _ =>
    ∀ batch ∈ node.db.highestToFinalize blockNumber, ∀ block ∈ node.db.lastBlockOf batch.hash,
      node.db.WaitsAbove block.blockNumber
        (fun r => Db.finalizedWithStatus .consolidated blockNumber r = false)
  | .attempt _ _ => ∀ batch ∈ node.held, node.DerivesInOrder batch
  | _ => True

def AwaitsFinality (node : Node) : Prop :=
  node.db.WaitsAbove node.fcs.finalized.number (fun _ => True)

variable {node node' : Node}

theorem AwaitsFinality.of_keepsConsolidated (h : node.AwaitsFinality) (hfcs : node'.fcs = node.fcs)
    (hrows : node.db.KeepsConsolidated node'.db) (hblocks : node'.db.l2Blocks = node.db.l2Blocks) :
    node'.AwaitsFinality := by
  unfold AwaitsFinality
  rw [hfcs]
  exact Db.WaitsAbove.of_keepsConsolidated h hrows hblocks

theorem awaitsFinality_handleBatchCommit (h : node.AwaitsFinality) (blockInfo : BlockInfo)
    (batch : BatchCommitData) : (node.handleBatchCommit blockInfo batch).1.AwaitsFinality := by
  unfold handleBatchCommit
  cases hcommit : commitBatch node.db blockInfo batch with
  | error e => exact h
  | ok db =>
    obtain ⟨l1Blocks, rfl⟩ := commitBatch_ok hcommit
    have hrows := node.db.keepsConsolidated_insertBatch batch
    simp only
    split
    · exact h.of_keepsConsolidated rfl hrows rfl
    · exact h.of_keepsConsolidated rfl hrows rfl

theorem finalizedByBatch_keeps {batchIndex : ℕ} {l1BlockInfo : BlockInfo}
    {triggered : List BatchInfo}
    (h : finalizedByBatch db batchIndex l1BlockInfo = .ok (db', triggered)) :
    db.KeepsConsolidated db' ∧ db'.l2Blocks = db.l2Blocks := by
  obtain ⟨finalized, hrows, hblocks, hfetch⟩ := finalizedByBatch_ok h
  have hfinal : db.KeepsConsolidated finalized :=
    (db.keepsConsolidated_finalizeBatchesUpToIndex batchIndex l1BlockInfo.number).trans
      (Db.keepsConsolidated_of_rows hrows)
  obtain ⟨rfl, -⟩ | ⟨rfl, -⟩ := hfetch
  · exact ⟨hfinal.trans (Db.keepsConsolidated_fetchAndUpdate _ _), hblocks⟩
  · exact ⟨hfinal, hblocks⟩

theorem awaitsFinality_handleBatchFinalization (h : node.AwaitsFinality) (batchIndex : ℕ)
    (l1BlockInfo : BlockInfo) :
    (node.handleBatchFinalization batchIndex l1BlockInfo).1.AwaitsFinality := by
  unfold handleBatchFinalization
  split
  · exact h
  · rename_i db triggered hfinal
    obtain ⟨hrows, hblocks⟩ := finalizedByBatch_keeps hfinal
    exact h.of_keepsConsolidated rfl hrows hblocks

theorem awaitsFinality_holdBatch (h : node.AwaitsFinality) (batch : BatchDerivationResult) :
    (node.holdBatch batch).AwaitsFinality := by
  unfold holdBatch
  split
  · split
    · exact h
    · exact h
  · exact h

theorem finalizedByL1_keeps {n : ℕ} {info : Option BlockInfo} {triggered : List BatchInfo}
    (h : finalizedByL1 db n = .ok (db', info, triggered)) :
    (db.withFinalized n).KeepsConsolidated db' ∧ db'.l2Blocks = db.l2Blocks := by
  obtain ⟨finalized, hrows, hblocks, rfl, -⟩ := finalizedByL1_ok h
  exact ⟨(Db.keepsConsolidated_of_rows hrows).trans (Db.keepsConsolidated_fetchAndUpdate _ _),
    hblocks⟩

theorem awaitsFinality_of_finalized {n : ℕ} (h : node.AwaitsFinality)
    (hwaits : node.db.WaitsAbove block.blockNumber
      (fun r => Db.finalizedWithStatus .consolidated n r = false))
    (hrows : (node.db.withFinalized n).KeepsConsolidated node'.db)
    (hblocks : node'.db.l2Blocks = node.db.l2Blocks)
    (hfcs : node'.fcs.finalized = node.fcs.finalized ∨ node'.fcs.finalized = block.blockInfo) :
    node'.AwaitsFinality := by
  intro r hr hc _ hblock
  obtain ⟨q, hq, hqc, hhash⟩ := hrows r hr hc
  obtain ⟨hmem, hopen⟩ := Db.consolidated_of_mem_withFinalized hq hqc
  unfold Db.HasBlock at hblock
  unfold Db.HasBlockAbove
  rw [hblocks, ← hhash] at hblock ⊢
  rcases hfcs with hfcs | hfcs
  · rw [hfcs]
    exact h q hmem hqc trivial hblock
  · rw [hfcs]
    exact hwaits q hmem hqc hopen hblock

theorem awaitsFinality_handleL1Finalized (h : node.AwaitsFinality) (n : ℕ)
    (reply : Reply ForkchoiceUpdated) (hcond : node.FinalizesInOrder (.l1Finalized n reply)) :
    (node.handleL1Finalized n reply).1.AwaitsFinality := by
  unfold handleL1Finalized
  split
  · exact h
  · rename_i db triggered hfinal
    obtain ⟨hrows, hblocks⟩ := finalizedByL1_keeps hfinal
    exact h.of_keepsConsolidated rfl ((node.db.keepsConsolidated_withFinalized n).trans hrows) hblocks
  · rename_i db info triggered hfinal
    obtain ⟨hrows, hblocks⟩ := finalizedByL1_keeps hfinal
    obtain ⟨-, -, -, -, -, hinfo⟩ := finalizedByL1_ok hfinal
    obtain ⟨batch, block, hbatch, hlast, rfl⟩ := hinfo info rfl
    have hwaits := hcond batch hbatch block hlast
    have hfcs : ∀ node' : Node, node'.fcs = (node.fcs.updateFcs none none
        (some block.blockInfo) reply).1 → node'.fcs.finalized = node.fcs.finalized ∨
          node'.fcs.finalized = block.blockInfo := by
      intro node' hnode
      rw [hnode]
      rcases node.fcs.updateFcs_state none none (some block.blockInfo) reply with hsame | hnew
      · exact Or.inl (congrArg ForkchoiceState.finalized hsame)
      · refine Or.inr ?_
        rw [(ForkchoiceState.update_eq_ok hnew).1]
        rfl
    split
    · rename_i node' e hupdate
      have hnode := (congrArg Prod.fst hupdate).symm
      dsimp only at hnode
      rw [hnode]
      exact awaitsFinality_of_finalized h hwaits hrows hblocks (hfcs _ rfl)
    · rename_i node' e hupdate
      have hnode := (congrArg Prod.fst hupdate).symm
      dsimp only at hnode
      rw [hnode]
      exact awaitsFinality_of_finalized h hwaits hrows hblocks (hfcs _ rfl)

theorem awaitsFinality_consolidated {batch : BatchDerivationResult} {o : BatchConsolidationOutcome}
    (h : node.AwaitsFinality) (hcond : node.DerivesInOrder batch)
    (hfcs : FinalizedWithin batch node.fcs node'.fcs) (ho : OutcomeOf batch o)
    (hdb : node'.db = node.db.consolidated o) : node'.AwaitsFinality := by
  intro r hr hc _ hblock
  rw [hdb] at hr hblock ⊢
  obtain ⟨q, hq, ⟨hp, rfl⟩ | ⟨hp, rfl⟩⟩ := Table.cases_of_mem_update hr
  · -- the batch of the attempt: it is above the finalized block, which has not moved
    have hhash : q.hash = o.batchInfo.hash := of_decide_eq_true hp
    have hstatus : o.targetStatus = .consolidated := hc
    have htarget : batch.targetStatus.isFinalized = false := by
      rw [← ho.targetStatus, hstatus]
      rfl
    rw [DerivesInOrder, htarget] at hcond
    obtain ⟨hne, habove⟩ := hcond
    rcases hfcs with hfcs | ⟨hfinal, _⟩
    · change (node.db.consolidated o).HasBlockAbove q.hash _
      rw [hfcs, hhash]
      refine node.db.hasBlockAbove_consolidated_self (ho.nonempty hne) ?_
      intro b hb
      obtain ⟨a, ha, hnumber⟩ := ho.within hb
      rw [← hnumber]
      exact habove a ha
    · rw [htarget] at hfinal
      cases hfinal
  · have hhash : r.hash ≠ o.batchInfo.hash := of_decide_eq_false hp
    have hold : node.db.HasBlock r.hash := by
      rcases (node.db.hasBlock_consolidated o r.hash).1 hblock with hold | ⟨_, heq⟩
      · exact hold
      · exact absurd heq hhash
    refine Db.hasBlockAbove_consolidated_of_ne hhash ?_
    rcases hfcs with hfcs | ⟨hfinal, a, ha, hnumber⟩
    · rw [hfcs]
      exact h r hq hc trivial hold
    · rw [DerivesInOrder, if_pos hfinal] at hcond
      rw [← hnumber]
      exact hcond a ha r hq hc (ho.batchInfo ▸ hhash) hold

theorem awaitsFinality_runAttempt (h : node.AwaitsFinality) (client : L2Client)
    (replies : ℕ → ActionReplies) (hcompletes : node.AttemptCompletes (.attempt client replies))
    (hcond : node.FinalizesInOrder (.attempt client replies)) :
    (node.runAttempt client replies).1.AwaitsFinality := by
  obtain ⟨outcome, hdone⟩ := hcompletes
  unfold runAttempt at hdone ⊢
  cases hheld : node.held with
  | none => exact h
  | some batch =>
    have hderives := hcond batch hheld
    simp only [hheld] at hdone ⊢
    have hfcs := reconcileAndConsolidate_finalizedWithin client replies node.fcs node.db batch
    split
    · rename_i fcs db completed hattempt
      rw [hattempt] at hfcs
      obtain ⟨o, ho, hdb⟩ := reconcileAndConsolidate_consolidated
        (congrArg (fun result => result.2.2) hattempt)
      rw [hattempt] at hdb
      exact awaitsFinality_consolidated h hderives hfcs ho hdb
    · rename_i fcs db method status hattempt
      rw [hattempt] at hdone
      cases hdone
    · rename_i fcs db method status e hattempt
      rw [hattempt] at hdone
      cases hdone
    · rename_i fcs db message hattempt
      rw [hattempt] at hdone
      cases hdone

/-- Every event in order keeps the waiting batches above the finalized block. -/
theorem awaitsFinality_handle (h : node.AwaitsFinality) (event : FinalizationEvent)
    (hcompletes : node.AttemptCompletes event) (hcond : node.FinalizesInOrder event) :
    (node.handle event).AwaitsFinality := by
  cases event with
  | batchCommit blockInfo batch => exact awaitsFinality_handleBatchCommit h blockInfo batch
  | batchFinalization batchIndex l1BlockInfo =>
    exact awaitsFinality_handleBatchFinalization h batchIndex l1BlockInfo
  | l1Finalized blockNumber reply => exact awaitsFinality_handleL1Finalized h blockNumber reply hcond
  | derived batch => exact awaitsFinality_holdBatch h batch
  | attempt client replies => exact awaitsFinality_runAttempt h client replies hcompletes hcond

/-- Batches up to `k` are consolidated or finalized, blocks increase with the batch index, and
the finalized block is the last block of the highest finalized batch. -/
structure SettledUpTo (k : ℕ) (node : Node) : Prop where
  settled : ∀ r ∈ node.db.batchCommits, r.index ≤ k →
    r.status = .consolidated ∨ r.status = .finalized
  increasing : ∀ r ∈ node.db.batchCommits, ∀ q ∈ node.db.batchCommits, r.index < q.index →
    ∀ b ∈ node.db.l2Blocks, b.batchHash = r.hash → ∀ c ∈ node.db.l2Blocks,
      c.batchHash = q.hash → b.blockNumber < c.blockNumber
  finalized : ∃ r ∈ node.db.batchCommits, r.status = .finalized ∧
    (∀ q ∈ node.db.batchCommits, q.status = .finalized → q.index ≤ r.index) ∧
    (node.db.lastBlockOf r.hash).map L2BlockRow.blockInfo = some node.fcs.finalized

def NoneOvertaken (node : Node) : Prop :=
  ∀ r ∈ node.db.batchCommits, r.status = .consolidated →
    ∀ q ∈ node.db.batchCommits, q.status = .finalized → q.index < r.index

theorem SettledUpTo.awaitsFinality {k : ℕ} (h : SettledUpTo k node) (hnone : node.NoneOvertaken) :
    node.AwaitsFinality := by
  obtain ⟨top, htop, hfinal, -, hlast⟩ := h.finalized
  obtain ⟨block, hblock, hinfo⟩ := Option.map_eq_some_iff.1 hlast
  obtain ⟨hmem, hhash⟩ := (node.db.l2Blocks.mem_select _ block).1 (highest_mem hblock)
  intro r hr hc _ hhas
  obtain ⟨c, hc', hchash⟩ := hhas
  have hindex := hnone r hr hc top htop hfinal
  have hlt := h.increasing top htop r hr hindex block hmem (of_decide_eq_true hhash) c hc' hchash
  refine ⟨c, hc', hchash, ?_⟩
  rw [← hinfo]
  exact hlt

/-- The block of an L1 finalized notification is not below the finalized block, and the
forkchoice state does not reject it for that. -/
def FinalityAdvances (node : Node) : Prop :=
  ∀ n db block triggered, finalizedByL1 node.db n = .ok (db, some block, triggered) →
    node.fcs.finalized.number ≤ block.number ∧
      node.fcs.update none none (some block) ≠ .error .finalizedBlockNumberNotIncreasing

theorem AwaitsFinality.finalityAdvances (h : node.AwaitsFinality) : node.FinalityAdvances := by
  intro n db info triggered hfinal
  obtain ⟨-, -, -, -, -, hinfo⟩ := finalizedByL1_ok hfinal
  obtain ⟨batch, block, hbatch, hlast, rfl⟩ := hinfo info rfl
  obtain ⟨hmem, hsel⟩ := Db.highestToFinalize_spec hbatch
  have habove := h batch hmem (Db.status_of_finalizedWithStatus hsel) trivial
    (Db.hasBlock_of_lastBlockOf hlast)
  have hlt : node.fcs.finalized.number < block.blockInfo.number := habove.lastBlockOf hlast
  refine ⟨hlt.le, ?_⟩
  intro hrejected
  have hback : block.blockInfo.number ≤ node.fcs.finalized.number :=
    ForkchoiceState.not_increasing_of_update hrejected
  omega

end Node

/-- Finality only advances in runs that finalize in order, from batches that are settled. -/
theorem finalityAdvances_of_finalizesInOrder (k : ℕ) (node : Node)
    (hstart : Node.SettledUpTo k node) (hnone : node.NoneOvertaken)
    (events : List FinalizationEvent)
    (h : Meets Node.handle (fun s e => s.AttemptCompletes e ∧ s.FinalizesInOrder e) node events) :
    (run Node.handle node events).FinalityAdvances := by
  have hwaits : (run Node.handle node events).AwaitsFinality :=
    h.invariant Node.handle Node.AwaitsFinality
      (fun s e hs he => Node.awaitsFinality_handle hs e he.1 he.2) (hstart.awaitsFinality hnone)
  exact hwaits.finalityAdvances

def awaitingNode (l1Synced : Bool) : Node where
  db := consolidatedFirst.setFinalizedL1BlockNumber 50
  fcs := ⟨⟨1, 21⟩, ⟨1, 21⟩, ⟨0, 7⟩⟩
  syncState := ⟨l1Synced, true⟩
  sequencer := none
  pipeline := []
  held := none
  attemptScheduled := false

def secondCommit : BatchCommitData := ⟨12, 2, 30, 0, [], none, none, none⟩

def twoBlockClient : L2Client := .ofChain [emptyBlock 1 21 7, emptyBlock 2 22 21]

def secondDerived (target : BatchStatus) : BatchDerivationResult :=
  ⟨[⟨2, 1, ⟨0, 0, some [], none, ⟨none, none, none, none, none⟩⟩⟩], ⟨2, 12⟩, [], target⟩

def validReplies : ℕ → ActionReplies := fun _ =>
  ⟨validReply, .error "not built", .error "not imported", validReply⟩

def finalizedInTurn : List FinalizationEvent :=
  [.batchFinalization 1 ⟨40, 140⟩, .l1Finalized 51 validReply, .batchCommit ⟨60, 160⟩ secondCommit,
    .derived (secondDerived .consolidated), .attempt twoBlockClient validReplies,
    .batchFinalization 2 ⟨65, 165⟩, .l1Finalized 70 validReply]

theorem finalityAdvances_finalizedInTurn :
    (run Node.handle (awaitingNode true) finalizedInTurn).FinalityAdvances := by
  refine finalityAdvances_of_finalizesInOrder 1 (awaitingNode true) ⟨by decide, by decide, by decide⟩
    (by unfold Node.NoneOvertaken; decide) finalizedInTurn ?_
  refine ⟨⟨trivial, trivial⟩, ⟨trivial, ?_⟩, ⟨trivial, trivial⟩, ⟨trivial, trivial⟩,
    ⟨⟨_, rfl⟩, ?_⟩, ⟨trivial, trivial⟩, ⟨trivial, ?_⟩, trivial⟩
  · unfold Node.FinalizesInOrder
    decide
  · unfold Node.FinalizesInOrder Node.DerivesInOrder
    decide
  · unfold Node.FinalizesInOrder
    decide

/-- Batch 2 is committed and finalized while the node catches up with an L1 block that is
final already: it is derived as final although batch 1 still waits. -/
def finalizedDirectly : List FinalizationEvent :=
  [.batchCommit ⟨30, 130⟩ secondCommit, .batchFinalization 2 ⟨40, 140⟩,
    .derived (secondDerived .finalized), .attempt twoBlockClient validReplies]

/-- Batch 1 is finalized behind batch 2. -/
theorem finality_goes_back_behind_direct_finalization :
    Node.SettledUpTo 1 (awaitingNode false) ∧ (awaitingNode false).NoneOvertaken ∧
      Meets Node.handle Node.AttemptCompletes (awaitingNode false) finalizedDirectly ∧
      ¬(run Node.handle (awaitingNode false) finalizedDirectly).FinalityAdvances := by
  refine ⟨⟨by decide, by decide, by decide⟩, by unfold Node.NoneOvertaken; decide,
    ⟨trivial, trivial, trivial, ⟨_, rfl⟩, trivial⟩, ?_⟩
  intro h
  have hback := (h 51 _ ⟨1, 21⟩ [] rfl).1
  revert hback
  decide

end RollupNode
