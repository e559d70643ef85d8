import RollupNode.BatchRowMoves

set_option autoImplicit false

/-! Which batch is live at an index after a commit, in every reachable database. -/
namespace RollupNode
open RelationalTable GuardedRuns ExceptTraversal

def BatchCommitData.stored (b : BatchCommitData) : BatchCommitData :=
  { b with finalizedBlockNumber := none, revertedBlockNumber := none }

inductive BatchAction where
  | commit (blockInfo : BlockInfo) (batch : BatchCommitData)
  | revert (first last : ℕ) (blockInfo : BlockInfo) (reply : Reply ForkchoiceUpdated)
  | unwind (n : ℕ)
  | consolidate (outcome : BatchConsolidationOutcome)

namespace Node

def batchStep (node : Node) : BatchAction → Node
  | .commit blockInfo batch => (node.handleBatchCommit blockInfo batch).1
  | .revert first last blockInfo reply => (node.handleBatchRevert first last blockInfo reply).1
  | .unwind n =>
    match node.db.unwind n with
    | .ok (db, _) => { node with db := db }
    | .error _ => node
  | .consolidate outcome =>
    match node.db.insertBatchConsolidationOutcome outcome with
    | .ok db => { node with db := db }
    | .error _ => node

end Node

def BatchAction.Keeps (b : BatchCommitData) : BatchAction → Prop
  | .commit _ batch => batch.hash ≠ b.hash
  | .revert first last _ _ => ¬(first ≤ b.index ∧ b.index ≤ last)
  | .unwind n => b.blockNumber ≤ n
  | .consolidate _ => True

namespace Db

/-- Exactly one live row has the index of the batch, and it is the batch. -/
def OnlyLive (db : Db) (b : BatchCommitData) : Prop :=
  ∃ r : BatchCommitRow, r.toCommitData = b.stored ∧
    ∀ q, (q ∈ db.batchCommits ∧ q.revertedBlockNumber = none ∧ q.index = b.index) ↔ q = r

def Covers (db : Db) (hash : B256) : Prop :=
  ∀ block ∈ db.l2Blocks, block.batchHash = hash →
    ∃ info, db.getLatestSafeL2Info = .ok info ∧ block.blockNumber ≤ info.1.number

def TakesCommit (db : Db) (b : BatchCommitData) : Prop :=
  ∀ r ∈ db.batchCommits, (r.hash = b.hash → r.revertedBlockNumber = none) ∧
    (r.index = b.index → r.revertedBlockNumber = none → r.hash = b.hash)

def FlagsFollow (db : Db) : Prop :=
  ∀ block ∈ db.l2Blocks, block.reverted = true →
    ∃ r ∈ db.batchCommits, r.hash = block.batchHash ∧ r.revertedBlockNumber.isSome

def HasLive (db : Db) (b : BatchCommitData) : Prop :=
  ∃ r ∈ db.batchCommits, r.hash = b.hash ∧ r.index = b.index ∧ r.blockNumber = b.blockNumber ∧
    r.revertedBlockNumber = none

end Db

/-- The batch alone is live at its index, the lookup by index returns it, and as long as it is
kept its blocks are safe once they are stored. -/
structure CommittedIsLive (node : Node) (b : BatchCommitData) : Prop where
  live : node.db.OnlyLive b
  found : node.db.getBatchByIndex b.index = some b.stored
  covered : ∀ later : List BatchAction, (∀ action ∈ later, action.Keeps b) →
    (run Node.batchStep node later).db.Covers b.hash

namespace Db

variable {db : Db} {b : BatchCommitData}

theorem covers_of_live (hflags : db.FlagsFollow) (hlive : db.HasLive b) : db.Covers b.hash := by
  intro block hblock hhash
  have hnot : block.reverted = false := by
    by_contra hreverted
    obtain ⟨q, hq, hqhash, hsome⟩ := hflags block hblock (Bool.of_not_eq_false hreverted)
    obtain ⟨r, hr, hrhash, -, -, hnone⟩ := hlive
    have heq : q = r := db.batchCommits.eq_of_key hq hr (hqhash.trans (hhash.trans hrhash.symm))
    rw [heq, hnone] at hsome
    cases hsome
  have hselected : block ∈ db.l2Blocks.select (fun r => !r.reverted) :=
    (db.l2Blocks.mem_select _ block).2 ⟨hblock, by rw [hnot]; rfl⟩
  unfold getLatestSafeL2Info
  cases hhighest : highest L2BlockRow.blockNumber (db.l2Blocks.select (fun r => !r.reverted)) with
  | none =>
    rw [(highest_eq_none _ _).1 hhighest] at hselected
    cases hselected
  | some top => exact ⟨_, rfl, le_highest hhighest hselected⟩

/-! ### The flags of the blocks -/

theorem flagsFollow_migrated (genesisHash : B256) : (migrated genesisHash).FlagsFollow := by
  intro block hblock hreverted
  rw [List.mem_singleton.1 hblock] at hreverted
  cases hreverted

theorem FlagsFollow.of_rows {db' : Db} (h : db.FlagsFollow)
    (hblocks : ∀ block ∈ db'.l2Blocks, block.reverted = true →
      ∃ old ∈ db.l2Blocks, old.reverted = true ∧ old.batchHash = block.batchHash)
    (hrows : ∀ r ∈ db.batchCommits, r.revertedBlockNumber.isSome →
      ∃ r' ∈ db'.batchCommits, r'.hash = r.hash ∧ r'.revertedBlockNumber.isSome) :
    db'.FlagsFollow := by
  intro block hblock hreverted
  obtain ⟨old, hold, holdreverted, hhash⟩ := hblocks block hblock hreverted
  obtain ⟨r, hr, hrhash, hsome⟩ := h old hold holdreverted
  obtain ⟨r', hr', hrhash', hsome'⟩ := hrows r hr hsome
  exact ⟨r', hr', hrhash'.trans (hrhash.trans hhash), hsome'⟩

theorem exists_mem_insertBatch {r : BatchCommitRow} (b : BatchCommitData)
    (hr : r ∈ db.batchCommits) :
    ∃ r' ∈ (db.insertBatch b).batchCommits, r'.hash = r.hash ∧
      r'.revertedBlockNumber = r.revertedBlockNumber := by
  by_cases hhash : r.hash = b.hash
  · exact ⟨_, Table.mem_upsert_of_key_eq db.batchCommits (BatchCommitRow.ofCommitData b) _ _ hr hhash,
      rfl, rfl⟩
  · exact ⟨r, Table.mem_upsert_of_key_ne _ _ _ _ hr hhash, rfl, rfl⟩

theorem flagsFollow_insertBatch (h : db.FlagsFollow) (b : BatchCommitData) :
    (db.insertBatch b).FlagsFollow := by
  refine h.of_rows (fun block hblock hreverted => ⟨block, hblock, hreverted, rfl⟩) ?_
  intro r hr hsome
  obtain ⟨r', hr', hhash, hreverted⟩ := exists_mem_insertBatch b hr
  exact ⟨r', hr', hhash, hreverted ▸ hsome⟩

theorem flagsFollow_revertRange (h : db.FlagsFollow) (first last : ℕ) (block : BlockInfo) :
    (db.setBatchRevertBlockNumberForBatchRange first last block).FlagsFollow := by
  have hrows := db.setBatchRevertBlockNumberForBatchRange_batchCommits first last block
  have hkept {r : BatchCommitRow} (hr : r ∈ db.batchCommits) :
      ∃ r' ∈ (db.setBatchRevertBlockNumberForBatchRange first last block).batchCommits,
        r'.hash = r.hash ∧ (r'.revertedBlockNumber = r.revertedBlockNumber ∨
          r'.revertedBlockNumber = some block.number) := by
    rw [hrows]
    refine ⟨_, (Table.mem_updateWhere _ _ _ _ _).2 ⟨r, hr, rfl⟩, ?_⟩
    split
    · exact ⟨rfl, Or.inr rfl⟩
    · exact ⟨rfl, Or.inl rfl⟩
  intro marked hmarked hreverted
  obtain ⟨old, hold, ⟨hselected, rfl⟩ | ⟨-, rfl⟩⟩ := Table.cases_of_mem_update hmarked
  · -- a block that is marked now: its batch is one of the selected ones
    obtain ⟨r, hr, hhash⟩ := List.mem_map.1 (of_decide_eq_true hselected)
    obtain ⟨hr, hrange⟩ := (db.batchCommits.mem_select _ r).1 hr
    rw [hrows]
    refine ⟨_, (Table.mem_updateWhere _ _ _ _ _).2 ⟨r, hr, if_pos hrange⟩, hhash, rfl⟩
  · obtain ⟨r, hr, hhash, hsome⟩ := h marked hold hreverted
    obtain ⟨r', hr', hhash', hcases⟩ := hkept hr
    refine ⟨r', hr', hhash'.trans hhash, ?_⟩
    rcases hcases with hsame | hnew
    · rw [hsame]
      exact hsome
    · rw [hnew]
      rfl

theorem flagsFollow_withoutAbove (h : db.FlagsFollow) (n : ℕ) :
    (db.withoutAbove n).FlagsFollow := by
  intro block hblock hreverted
  obtain ⟨old, hold, hkept, ⟨-, rfl⟩ | ⟨hnot, rfl⟩⟩ := (mem_withoutAbove_l2Blocks _ _ _).1 hblock
  · cases hreverted
  · obtain ⟨r, hr, hhash, hsome⟩ := h block hold hreverted
    have hnumber : r.blockNumber ≤ n := by
      by_contra hlt
      exact hkept ⟨r, hr, Nat.not_le.1 hlt, hhash⟩
    have habove : ¬revertedAbove n r = true := fun habove => hnot ⟨r, hr, hnumber, habove, hhash⟩
    refine ⟨BatchCommitRow.asOf n r, (mem_withoutAbove_batchCommits _ _ _).2 ⟨r, hr, hnumber, rfl⟩,
      hhash, ?_⟩
    have hsame : (BatchCommitRow.asOf n r).revertedBlockNumber = r.revertedBlockNumber :=
      (filter_le_eq_ite n _).trans (if_neg habove)
    rw [hsame]
    exact hsome

theorem reverted_of_mem_withBlocks {blocks : List BlockInfo} {batch : BatchInfo}
    {block : L2BlockRow} (h : block ∈ (db.withBlocks blocks batch).l2Blocks)
    (hreverted : block.reverted = true) :
    ∃ old ∈ db.l2Blocks, old.reverted = true ∧ old.batchHash = block.batchHash := by
  unfold withBlocks at h
  induction blocks using List.reverseRecOn generalizing block with
  | nil => exact ⟨block, h, hreverted, rfl⟩
  | append_singleton blocks last ih =>
    simp only [List.foldl_append, List.foldl_cons, List.foldl_nil] at ih h
    rcases Table.cases_of_mem_upsert _ _ _ _ h with ⟨hkept, -⟩ | ⟨-, rfl⟩ | ⟨q, hq, -, rfl⟩
    · exact ih hkept hreverted
    · cases hreverted
    · have hold := ih hq hreverted
      exact hold

theorem exists_mem_consolidated {r : BatchCommitRow} (o : BatchConsolidationOutcome)
    (hr : r ∈ db.batchCommits) :
    ∃ r' ∈ (db.consolidated o).batchCommits, r'.hash = r.hash ∧ r'.index = r.index ∧
      r'.blockNumber = r.blockNumber ∧ r'.revertedBlockNumber = r.revertedBlockNumber := by
  refine ⟨_, (Table.mem_updateWhere db.batchCommits (fun r => r.hash = o.batchInfo.hash)
    (fun r => { r with status := o.targetStatus }) (fun _ => rfl) _).2 ⟨r, hr, rfl⟩, ?_⟩
  split
  · exact ⟨rfl, rfl, rfl, rfl⟩
  · exact ⟨rfl, rfl, rfl, rfl⟩

theorem flagsFollow_consolidated (h : db.FlagsFollow) (o : BatchConsolidationOutcome) :
    (db.consolidated o).FlagsFollow := by
  refine h.of_rows ?_ ?_
  · intro block hblock hreverted
    have hblock : block ∈ ((db.setL2HeadBlockNumber (db.headAfter o)).withBlocks
      (o.blocks.map (·.blockInfo)) o.batchInfo).l2Blocks := hblock
    exact reverted_of_mem_withBlocks hblock hreverted
  · intro r hr hsome
    obtain ⟨r', hr', hhash, -, -, hreverted⟩ := exists_mem_consolidated o hr
    exact ⟨r', hr', hhash, hreverted ▸ hsome⟩

/-! ### The live row of a batch -/

theorem hasLive_insertBatch {c : BatchCommitData} (h : db.HasLive b) (hne : c.hash ≠ b.hash) :
    (db.insertBatch c).HasLive b := by
  obtain ⟨r, hr, hhash, hrest⟩ := h
  have hkey : r.hash ≠ c.hash := fun heq => hne (heq.symm.trans hhash)
  exact ⟨r, Table.mem_upsert_of_key_ne _ _ _ _ hr hkey, hhash, hrest⟩

theorem hasLive_revertRange (h : db.HasLive b) {first last : ℕ}
    (hrange : ¬(first ≤ b.index ∧ b.index ≤ last)) (block : BlockInfo) :
    (db.setBatchRevertBlockNumberForBatchRange first last block).HasLive b := by
  obtain ⟨r, hr, hhash, hindex, hrest⟩ := h
  have hnot : ¬inRevertedRange first last r = true := by
    intro hselected
    have hselected := of_decide_eq_true hselected
    rw [hindex] at hselected
    exact hrange ⟨hselected.1, hselected.2.1⟩
  rw [HasLive, setBatchRevertBlockNumberForBatchRange_batchCommits]
  exact ⟨r, (Table.mem_updateWhere _ _ _ _ _).2 ⟨r, hr, if_neg hnot⟩, hhash, hindex, hrest⟩

theorem hasLive_withoutAbove (h : db.HasLive b) {n : ℕ} (hblock : b.blockNumber ≤ n) :
    (db.withoutAbove n).HasLive b := by
  obtain ⟨r, hr, hhash, hindex, hnumber, hlive⟩ := h
  refine ⟨BatchCommitRow.asOf n r, (mem_withoutAbove_batchCommits _ _ _).2 ⟨r, hr, ?_, rfl⟩, hhash,
    hindex, hnumber, ?_⟩
  · omega
  · change r.revertedBlockNumber.filter _ = none
    rw [hlive]
    rfl

theorem hasLive_consolidated (h : db.HasLive b) (o : BatchConsolidationOutcome) :
    (db.consolidated o).HasLive b := by
  obtain ⟨r, hr, hhash, hindex, hnumber, hlive⟩ := h
  obtain ⟨r', hr', hhash', hindex', hnumber', hreverted⟩ := exists_mem_consolidated o hr
  exact ⟨r', hr', hhash'.trans hhash, hindex'.trans hindex, hnumber'.trans hnumber,
    hreverted.trans hlive⟩

end Db

/-! ### What an action does to the rows -/
namespace Node

theorem handleBatchCommit_db (node : Node) (blockInfo : BlockInfo) (batch : BatchCommitData) :
    ((node.handleBatchCommit blockInfo batch).1 = node ∧
        (node.handleBatchCommit blockInfo batch).2.isOk = false) ∨
      ∃ l1Blocks, (node.handleBatchCommit blockInfo batch).1.db =
        { node.db.insertBatch batch with l1Blocks := l1Blocks } := by
  unfold handleBatchCommit
  split
  · exact Or.inl ⟨rfl, rfl⟩
  rename_i db hcommit
  have hdb := commitBatch_ok hcommit
  refine Or.inr ?_
  simp only
  split <;> exact hdb

theorem handleBatchRevert_db (node : Node) (first last : ℕ) (blockInfo : BlockInfo)
    (reply : Reply ForkchoiceUpdated) :
    (node.handleBatchRevert first last blockInfo reply).1.db = node.db ∨
      ∃ l1Blocks, (node.handleBatchRevert first last blockInfo reply).1.db =
        Db.setBatchRevertBlockNumberForBatchRange { node.db with l1Blocks := l1Blocks } first last
          blockInfo := by
  unfold handleBatchRevert
  split
  · exact Or.inl rfl
  rename_i db safe hreverted
  obtain ⟨⟨l1Blocks, rfl⟩, -⟩ := revertBatches_ok hreverted
  refine Or.inr ⟨l1Blocks, ?_⟩
  simp only
  split
  · rw [updateFcsAfterUnwind_node]
  · rfl

theorem batchStep_cases (node : Node) (action : BatchAction) :
    (node.batchStep action).db = node.db ∨
      (∃ blockInfo batch l1Blocks, action = .commit blockInfo batch ∧
        (node.batchStep action).db = { node.db.insertBatch batch with l1Blocks := l1Blocks }) ∨
      (∃ first last blockInfo reply l1Blocks, action = .revert first last blockInfo reply ∧
        (node.batchStep action).db = Db.setBatchRevertBlockNumberForBatchRange
          { node.db with l1Blocks := l1Blocks } first last blockInfo) ∨
      (∃ n, action = .unwind n ∧
        (node.batchStep action).db = (node.db.withoutAbove n).withHead (node.db.loweredHead n)) ∨
      ∃ outcome, action = .consolidate outcome ∧
        (node.batchStep action).db = node.db.consolidated outcome := by
  cases action with
  | commit blockInfo batch =>
    rcases node.handleBatchCommit_db blockInfo batch with ⟨hsame, -⟩ | ⟨l1Blocks, hdb⟩
    · exact Or.inl (congrArg Node.db hsame)
    · exact Or.inr (Or.inl ⟨blockInfo, batch, l1Blocks, rfl, hdb⟩)
  | revert first last blockInfo reply =>
    rcases node.handleBatchRevert_db first last blockInfo reply with hsame | ⟨l1Blocks, hdb⟩
    · exact Or.inl hsame
    · exact Or.inr (Or.inr (Or.inl ⟨first, last, blockInfo, reply, l1Blocks, rfl, hdb⟩))
  | unwind n =>
    unfold batchStep
    simp only
    split
    · rename_i db result hunwind
      exact Or.inr (Or.inr (Or.inr (Or.inl ⟨n, rfl, (Db.unwind_ok hunwind).1⟩)))
    · exact Or.inl rfl
  | consolidate outcome =>
    unfold batchStep
    simp only
    split
    · rename_i db hstored
      have hdb := ((Db.insertBatchConsolidationOutcome_eq_ok _ _ _).1 hstored).2
      exact Or.inr (Or.inr (Or.inr (Or.inr ⟨outcome, rfl, hdb⟩)))
    · exact Or.inl rfl

theorem flagsFollow_batchStep {node : Node} (h : node.db.FlagsFollow) (action : BatchAction) :
    (node.batchStep action).db.FlagsFollow := by
  rcases node.batchStep_cases action with hdb | ⟨blockInfo, batch, l1Blocks, -, hdb⟩ |
    ⟨first, last, blockInfo, reply, l1Blocks, -, hdb⟩ | ⟨n, -, hdb⟩ | ⟨outcome, -, hdb⟩
  · rw [hdb]
    exact h
  · rw [hdb]
    exact Db.flagsFollow_insertBatch h batch
  · rw [hdb]
    exact Db.flagsFollow_revertRange h first last blockInfo
  · rw [hdb]
    have hunwound := Db.flagsFollow_withoutAbove h n
    cases node.db.loweredHead n <;> exact hunwound
  · rw [hdb]
    exact Db.flagsFollow_consolidated h outcome

theorem hasLive_batchStep {node : Node} {b : BatchCommitData} (h : node.db.HasLive b)
    {action : BatchAction} (hkeeps : action.Keeps b) :
    (node.batchStep action).db.HasLive b := by
  rcases node.batchStep_cases action with hdb | ⟨blockInfo, batch, l1Blocks, rfl, hdb⟩ |
    ⟨first, last, blockInfo, reply, l1Blocks, rfl, hdb⟩ | ⟨n, rfl, hdb⟩ | ⟨outcome, rfl, hdb⟩
  · rw [hdb]
    exact h
  · rw [hdb]
    exact Db.hasLive_insertBatch h hkeeps
  · rw [hdb]
    exact Db.hasLive_revertRange h hkeeps blockInfo
  · rw [hdb]
    have hunwound := Db.hasLive_withoutAbove h hkeeps
    cases node.db.loweredHead n <;> exact hunwound
  · rw [hdb]
    exact Db.hasLive_consolidated h outcome

/-- The safe block stays at the blocks of a live batch or above, as long as nothing takes it away. -/
theorem covers_run {node : Node} {b : BatchCommitData} (hflags : node.db.FlagsFollow)
    (hlive : node.db.HasLive b) {later : List BatchAction}
    (hkeeps : ∀ action ∈ later, action.Keeps b) :
    (run batchStep node later).db.Covers b.hash := by
  have hkept := (meets_of_forall batchStep hkeeps node).invariant batchStep
    (fun node => node.db.FlagsFollow ∧ node.db.HasLive b)
    (fun node action h hkeep => ⟨flagsFollow_batchStep h.1 action, hasLive_batchStep h.2 hkeep⟩)
    ⟨hflags, hlive⟩
  exact Db.covers_of_live hkept.1 hkept.2

end Node

/-! ### The batch that is live after a commit -/
namespace Db

theorem OnlyLive.found {b : BatchCommitData} {db : Db} (h : db.OnlyLive b) :
    db.getBatchByIndex b.index = some b.stored := by
  obtain ⟨r, hdata, hiff⟩ := h
  obtain ⟨hr, hlive, hindex⟩ := (hiff r).2 rfl
  rw [← hdata, ← hindex]
  refine getBatchByIndex_of_alone hr hlive ?_
  intro q hq hqlive hqindex
  rw [(hiff q).1 ⟨hq, hqlive, hqindex.trans hindex⟩]

theorem OnlyLive.hasLive {b : BatchCommitData} {db : Db} (h : db.OnlyLive b) : db.HasLive b := by
  obtain ⟨r, hdata, hiff⟩ := h
  obtain ⟨hr, hlive, hindex⟩ := (hiff r).2 rfl
  exact ⟨r, hr, congrArg BatchCommitData.hash hdata, hindex,
    congrArg BatchCommitData.blockNumber hdata, hlive⟩

theorem onlyLive_insertBatch_iff (db : Db) (b : BatchCommitData) :
    (db.insertBatch b).OnlyLive b ↔ db.TakesCommit b := by
  constructor
  · rintro ⟨r, hdata, hiff⟩ q hq
    obtain ⟨hr, hlive, -⟩ := (hiff r).2 rfl
    have hhash : r.hash = b.hash := congrArg BatchCommitData.hash hdata
    constructor
    · intro hqhash
      obtain ⟨q', hq', hhash', hreverted⟩ := exists_mem_insertBatch b hq
      have hsame : q' = r := (db.insertBatch b).batchCommits.eq_of_key hq' hr
        (hhash'.trans (hqhash.trans hhash.symm))
      rw [← hreverted, hsame]
      exact hlive
    · intro hindex hqlive
      by_contra hne
      have hq' : q ∈ (db.insertBatch b).batchCommits := Table.mem_upsert_of_key_ne _ _ _ _ hq hne
      rw [(hiff q).1 ⟨hq', hqlive, hindex⟩] at hne
      exact hne hhash
  · intro htakes
    obtain ⟨r, hr, hhash, hdata, hlive⟩ : ∃ r ∈ (db.insertBatch b).batchCommits,
        r.hash = b.hash ∧ r.toCommitData = b.stored ∧ r.revertedBlockNumber = none := by
      by_cases hnew : ∃ q ∈ db.batchCommits, q.hash = b.hash
      · obtain ⟨q, hq, hqhash⟩ := hnew
        have hqlive := (htakes q hq).1 hqhash
        refine ⟨_, Table.mem_upsert_of_key_eq db.batchCommits (BatchCommitRow.ofCommitData b) _ _
          hq hqhash, hqhash, ?_, hqlive⟩
        simp only [BatchCommitRow.toCommitData, BatchCommitData.stored, BatchCommitRow.ofCommitData,
          hqhash, hqlive]
      · have hfresh : b.hash ∉ db.batchCommits.keys :=
          fun hmem => hnew ((db.batchCommits.mem_keys _).1 hmem)
        refine ⟨.ofCommitData b, ?_, rfl, rfl, rfl⟩
        change _ ∈ db.batchCommits.upsert _ _ _
        rw [Table.upsert_of_fresh _ _ _ _ hfresh]
        exact (Table.mem_insertNew _ _ _ _).2 (Or.inr rfl)
    refine ⟨r, hdata, fun q => ⟨?_, ?_⟩⟩
    · rintro ⟨hq, hqlive, hindex⟩
      refine (db.insertBatch b).batchCommits.eq_of_key hq hr (Eq.trans ?_ hhash.symm)
      rcases Table.cases_of_mem_upsert _ _ _ _ hq with ⟨hold, -⟩ | ⟨-, rfl⟩ | ⟨old, -, hkey, rfl⟩
      · exact (htakes q hold).2 hindex hqlive
      · rfl
      · exact hkey
    · rintro rfl
      exact ⟨hr, hlive, congrArg BatchCommitData.index hdata⟩

end Db

/-- In every database that the actions reach, a commit that returns makes its batch the live one
at its index exactly when no earlier life of it was reverted and the index is free. -/
theorem committedIsLive_iff (genesisHash : B256) (node : Node)
    (hstart : node.db = migrated genesisHash) (actions : List BatchAction) (blockInfo : BlockInfo)
    (b : BatchCommitData)
    (hok : ((run Node.batchStep node actions).handleBatchCommit blockInfo b).2 = .ok ()) :
    CommittedIsLive ((run Node.batchStep node actions).handleBatchCommit blockInfo b).1 b ↔
      (run Node.batchStep node actions).db.TakesCommit b := by
  have hflags : (run Node.batchStep node actions).db.FlagsFollow := by
    refine (meets_true Node.batchStep node actions).invariant Node.batchStep
      (fun node => node.db.FlagsFollow) (fun _ action h _ => Node.flagsFollow_batchStep h action) ?_
    rw [hstart]
    exact Db.flagsFollow_migrated genesisHash
  generalize run Node.batchStep node actions = reached at hok hflags ⊢
  rcases reached.handleBatchCommit_db blockInfo b with ⟨-, hfailed⟩ | ⟨l1Blocks, hdb⟩
  · rw [hok] at hfailed
    cases hfailed
  rw [← Db.onlyLive_insertBatch_iff]
  constructor
  · intro h
    have hlive := h.live
    rw [hdb] at hlive
    exact hlive
  · intro h
    have honly : ((reached.handleBatchCommit blockInfo b).1.db).OnlyLive b := by
      rw [hdb]
      exact h
    refine ⟨honly, honly.found, ?_⟩
    intro later hkeeps
    refine Node.covers_run ?_ honly.hasLive hkeeps
    rw [hdb]
    exact Db.flagsFollow_insertBatch hflags b

def firstReverted : List BatchAction :=
  [.commit ⟨10, 110⟩ firstCommit, .consolidate confirmedWith,
    .revert 1 1 ⟨20, 120⟩ (.error "not called")]

theorem committedIsLive_replaced :
    CommittedIsLive ((run Node.batchStep (.fresh 7) firstReverted).handleBatchCommit ⟨30, 130⟩
      ⟨12, 1, 30, 0, [], none, none, none⟩).1 ⟨12, 1, 30, 0, [], none, none, none⟩ :=
  (committedIsLive_iff 7 (.fresh 7) rfl firstReverted ⟨30, 130⟩ _ (by decide)).2
    (by unfold Db.TakesCommit; decide)

/-- The same batch is committed again: its row stays reverted. -/
theorem recommitted_batch_not_live :
    ((run Node.batchStep (.fresh 7) firstReverted).handleBatchCommit ⟨30, 130⟩
        { firstCommit with blockNumber := 30 }).2 = .ok () ∧
      ¬CommittedIsLive ((run Node.batchStep (.fresh 7) firstReverted).handleBatchCommit ⟨30, 130⟩
        { firstCommit with blockNumber := 30 }).1 { firstCommit with blockNumber := 30 } := by
  refine ⟨by decide, ?_⟩
  intro h
  have hfound := h.found
  revert hfound
  decide

end RollupNode
