import RollupNode.DatabaseConsolidation

set_option autoImplicit false

/-! What each statement does to the consolidated batches and to the blocks they carry. -/
namespace RollupNode
open RelationalTable

namespace Db

def HasBlock (db : Db) (hash : B256) : Prop := ∃ b ∈ db.l2Blocks, b.batchHash = hash

/-- Every consolidated batch of the second database was one in the first. -/
def KeepsConsolidated (db db' : Db) : Prop :=
  ∀ r ∈ db'.batchCommits, r.status = .consolidated →
    ∃ q ∈ db.batchCommits, q.status = .consolidated ∧ q.hash = r.hash

theorem KeepsConsolidated.trans {a b c : Db} (hab : a.KeepsConsolidated b)
    (hbc : b.KeepsConsolidated c) : a.KeepsConsolidated c := by
  intro r hr hc
  obtain ⟨q, hq, hqc, hhash⟩ := hbc r hr hc
  obtain ⟨p, hp, hpc, hhash'⟩ := hab q hq hqc
  exact ⟨p, hp, hpc, hhash'.trans hhash⟩

theorem keepsConsolidated_of_rows {db db' : Db} (h : db'.batchCommits = db.batchCommits) :
    db.KeepsConsolidated db' := by
  intro r hr hc
  rw [h] at hr
  exact ⟨r, hr, hc, rfl⟩

theorem keepsConsolidated_insertBatch (db : Db) (batch : BatchCommitData) :
    db.KeepsConsolidated (db.insertBatch batch) := by
  intro r hr hc
  rcases Table.mem_upsert_of_mem _ _ _ _ hr with rfl | ⟨q, hq, rfl | rfl⟩
  · cases hc
  · exact ⟨_, hq, hc, rfl⟩
  · exact ⟨q, hq, hc, rfl⟩

theorem keepsConsolidated_finalizeBatchesUpToIndex (db : Db) (index n : ℕ) :
    db.KeepsConsolidated (db.finalizeBatchesUpToIndex index n) := by
  intro r hr hc
  obtain ⟨q, hq, ⟨_, rfl⟩ | ⟨_, rfl⟩⟩ := Table.cases_of_mem_update hr
  · exact ⟨q, hq, hc, rfl⟩
  · exact ⟨_, hq, hc, rfl⟩

theorem keepsConsolidated_revertRange (db : Db) (first last : ℕ) (block : BlockInfo) :
    db.KeepsConsolidated (db.setBatchRevertBlockNumberForBatchRange first last block) := by
  intro r hr hc
  obtain ⟨q, hq, ⟨_, rfl⟩ | ⟨_, rfl⟩⟩ := Table.cases_of_mem_update hr
  · cases hc
  · exact ⟨_, hq, hc, rfl⟩

theorem keepsConsolidated_fetchAndUpdate (db : Db) (p : BatchCommitRow → Bool) :
    db.KeepsConsolidated (db.fetchAndUpdate p).1 := by
  intro r hr hc
  obtain ⟨q, hq, ⟨_, rfl⟩ | ⟨_, rfl⟩⟩ := Table.cases_of_mem_update hr
  · cases hc
  · exact ⟨_, hq, hc, rfl⟩

theorem consolidated_of_mem_withFinalized {db : Db} {r : BatchCommitRow} {n : ℕ}
    (hr : r ∈ (db.withFinalized n).batchCommits) (hc : r.status = .consolidated) :
    r ∈ db.batchCommits ∧ finalizedWithStatus .consolidated n r = false := by
  obtain ⟨q, hq, ⟨_, rfl⟩ | ⟨hp, rfl⟩⟩ := Table.cases_of_mem_update hr
  · cases hc
  · exact ⟨hq, hp⟩

theorem keepsConsolidated_withFinalized (db : Db) (n : ℕ) :
    db.KeepsConsolidated (db.withFinalized n) := by
  intro r hr hc
  exact ⟨r, (consolidated_of_mem_withFinalized hr hc).1, hc, rfl⟩

theorem hasBlock_markReverted (db : Db) (hashes : List B256) (reverted : Option ℕ)
    (status : BatchStatus) (flag : Bool) (hash : B256) (h : db.HasBlock hash) :
    (db.markReverted hashes reverted status flag).HasBlock hash := by
  obtain ⟨b, hb, rfl⟩ := h
  refine ⟨_, List.mem_map_of_mem hb, ?_⟩
  split <;> rfl

theorem hasBlock_iff_keys (db : Db) (hash : B256) :
    db.HasBlock hash ↔ ∃ k ∈ db.l2Blocks.keys, k.1 = hash := by
  constructor
  · rintro ⟨b, hb, rfl⟩
    exact ⟨b.key, List.mem_map_of_mem hb, rfl⟩
  · rintro ⟨k, hk, rfl⟩
    obtain ⟨b, hb, rfl⟩ := (db.l2Blocks.mem_keys k).1 hk
    exact ⟨b, hb, rfl⟩

theorem mem_keys_withBlocks (db : Db) (blocks : List BlockInfo) (batch : BatchInfo)
    (k : B256 × B256) :
    k ∈ (db.withBlocks blocks batch).l2Blocks.keys ↔
      k ∈ db.l2Blocks.keys ∨ ∃ b ∈ blocks, k = (batch.hash, b.hash) := by
  unfold withBlocks
  induction blocks using List.reverseRecOn with
  | nil => simp
  | append_singleton bs b ih =>
    simp only [List.foldl_append, List.foldl_cons, List.foldl_nil] at ih ⊢
    refine (Table.mem_keys_upsert _ _ _ _ k).trans ?_
    rw [ih]
    simp only [List.mem_append, List.mem_singleton, or_and_right, exists_or, exists_eq_left,
      or_assoc]
    rfl

theorem hasBlock_withBlocks (db : Db) (blocks : List BlockInfo) (batch : BatchInfo)
    (hash : B256) :
    (db.withBlocks blocks batch).HasBlock hash ↔
      db.HasBlock hash ∨ (blocks ≠ [] ∧ hash = batch.hash) := by
  rw [hasBlock_iff_keys, hasBlock_iff_keys]
  constructor
  · rintro ⟨k, hk, rfl⟩
    rcases (db.mem_keys_withBlocks blocks batch k).1 hk with hk | ⟨b, hb, rfl⟩
    · exact Or.inl ⟨k, hk, rfl⟩
    · exact Or.inr ⟨List.ne_nil_of_mem hb, rfl⟩
  · rintro (⟨k, hk, rfl⟩ | ⟨hne, rfl⟩)
    · exact ⟨k, (db.mem_keys_withBlocks blocks batch k).2 (Or.inl hk), rfl⟩
    · obtain ⟨b, hb⟩ := List.exists_mem_of_ne_nil blocks hne
      exact ⟨_, (db.mem_keys_withBlocks blocks batch _).2 (Or.inr ⟨b, hb, rfl⟩), rfl⟩

theorem hasBlock_consolidated (db : Db) (o : BatchConsolidationOutcome) (hash : B256) :
    (db.consolidated o).HasBlock hash ↔
      db.HasBlock hash ∨ (o.blocks ≠ [] ∧ hash = o.batchInfo.hash) := by
  have h := hasBlock_withBlocks (db.setL2HeadBlockNumber (db.headAfter o))
    (o.blocks.map (·.blockInfo)) o.batchInfo hash
  rwa [ne_eq, List.map_eq_nil_iff] at h

def HasBlockAbove (db : Db) (hash : B256) (number : ℕ) : Prop :=
  ∃ b ∈ db.l2Blocks, b.batchHash = hash ∧ number < b.blockNumber

theorem mem_withBlocks_of_ne {db : Db} {blocks : List BlockInfo} {b : L2BlockRow}
    {batch : BatchInfo} (hb : b ∈ db.l2Blocks) (hne : b.batchHash ≠ batch.hash) :
    b ∈ (db.withBlocks blocks batch).l2Blocks := by
  unfold withBlocks
  induction blocks using List.reverseRecOn with
  | nil => exact hb
  | append_singleton blocks block ih =>
    simp only [List.foldl_append, List.foldl_cons, List.foldl_nil] at ih ⊢
    refine Table.mem_upsert_of_key_ne _ _ _ _ ih ?_
    intro hkey
    exact hne (congrArg Prod.fst hkey)

theorem cases_of_mem_withBlocks {db : Db} {blocks : List BlockInfo} {b : L2BlockRow}
    {batch : BatchInfo} (h : b ∈ (db.withBlocks blocks batch).l2Blocks) :
    b ∈ db.l2Blocks ∨ b.batchHash = batch.hash ∧ ∃ block ∈ blocks, b.blockNumber = block.number := by
  unfold withBlocks at h
  induction blocks using List.reverseRecOn with
  | nil => exact Or.inl h
  | append_singleton blocks block ih =>
    simp only [List.foldl_append, List.foldl_cons, List.foldl_nil] at ih h
    have hold : b ∈ blocks.foldl (upsertBlock batch) db.l2Blocks → b ∈ db.l2Blocks ∨
        b.batchHash = batch.hash ∧ ∃ c ∈ blocks ++ [block], b.blockNumber = c.number := by
      intro hmem
      rcases ih hmem with hb | ⟨hhash, c, hc, hnumber⟩
      · exact Or.inl hb
      · exact Or.inr ⟨hhash, c, List.mem_append_left _ hc, hnumber⟩
    unfold upsertBlock Table.upsert at h
    split at h
    · obtain ⟨q, hq, ⟨hkey, rfl⟩ | ⟨_, rfl⟩⟩ := Table.cases_of_mem_update h
      · have hhash : q.batchHash = batch.hash := congrArg Prod.fst (of_decide_eq_true hkey)
        exact Or.inr ⟨hhash, block, List.mem_append_right _ List.mem_cons_self, rfl⟩
      · exact hold hq
    · rcases List.mem_append.1 h with hmem | hnew
      · exact hold hmem
      · rw [List.mem_singleton.1 hnew]
        exact Or.inr ⟨rfl, block, List.mem_append_right _ List.mem_cons_self, rfl⟩

theorem hasBlockAbove_consolidated_of_ne {db : Db} {o : BatchConsolidationOutcome} {hash : B256}
    {number : ℕ} (hne : hash ≠ o.batchInfo.hash) (h : db.HasBlockAbove hash number) :
    (db.consolidated o).HasBlockAbove hash number := by
  obtain ⟨b, hb, rfl, hnumber⟩ := h
  have hmem : b ∈ ((db.setL2HeadBlockNumber (db.headAfter o)).withBlocks
      (o.blocks.map (·.blockInfo)) o.batchInfo).l2Blocks := mem_withBlocks_of_ne hb hne
  exact ⟨b, hmem, rfl, hnumber⟩

theorem exists_mem_withBlocks (db : Db) (blocks : List BlockInfo) (batch : BatchInfo)
    (hne : blocks ≠ []) :
    ∃ b ∈ (db.withBlocks blocks batch).l2Blocks, b.batchHash = batch.hash ∧
      ∃ block ∈ blocks, b.blockNumber = block.number := by
  obtain ⟨init, last, rfl⟩ := (List.eq_nil_or_concat blocks).resolve_left hne
  unfold withBlocks
  simp only [List.concat_eq_append, List.foldl_append, List.foldl_cons, List.foldl_nil]
  obtain ⟨b, hb, hkey, hrow⟩ := Table.exists_mem_upsert (init.foldl (upsertBlock batch) db.l2Blocks)
    (.ofBlock last batch)
    (fun r => { r with blockNumber := last.number, batchIndex := batch.index }) (fun _ => rfl)
  refine ⟨b, hb, congrArg Prod.fst hkey, last, by simp, ?_⟩
  rcases hrow with rfl | ⟨q, _, rfl⟩
  · rfl
  · rfl

theorem hasBlockAbove_consolidated_self {o : BatchConsolidationOutcome} (db : Db) {number : ℕ}
    (hne : o.blocks ≠ []) (h : ∀ b ∈ o.blocks, number < b.blockInfo.number) :
    (db.consolidated o).HasBlockAbove o.batchInfo.hash number := by
  have hmapped : o.blocks.map (·.blockInfo) ≠ [] := fun hnil => hne (List.map_eq_nil_iff.1 hnil)
  obtain ⟨b, hb, hhash, block, hblock, hnumber⟩ := exists_mem_withBlocks
    (db.setL2HeadBlockNumber (db.headAfter o)) (o.blocks.map (·.blockInfo)) o.batchInfo hmapped
  obtain ⟨listed, hlisted, rfl⟩ := List.mem_map.1 hblock
  have habove := h listed hlisted
  exact ⟨b, hb, hhash, by omega⟩

theorem lastBlockOf_eq_none (db : Db) (hash : B256) :
    db.lastBlockOf hash = none ↔ ¬db.HasBlock hash := by
  rw [lastBlockOf, highest_eq_none, List.eq_nil_iff_forall_not_mem]
  simp only [Table.mem_select, decide_eq_true_eq, HasBlock, not_exists]

theorem highestToFinalize_spec {db : Db} {n : ℕ} {batch : BatchCommitRow}
    (h : db.highestToFinalize n = some batch) :
    batch ∈ db.batchCommits ∧ finalizedWithStatus .consolidated n batch = true :=
  (db.batchCommits.mem_select _ batch).1 (highest_mem h)

theorem status_of_finalizedWithStatus {r : BatchCommitRow} {n : ℕ} {status : BatchStatus}
    (h : finalizedWithStatus status n r = true) : r.status = status := by
  rw [finalizedWithStatus, Bool.and_eq_true] at h
  exact of_decide_eq_true h.2

theorem getBatchByIndex_of_alone {db : Db} {r : BatchCommitRow} (hr : r ∈ db.batchCommits)
    (hlive : r.revertedBlockNumber = none)
    (halone : ∀ q ∈ db.batchCommits, q.revertedBlockNumber = none → q.index = r.index →
      q.hash = r.hash) : db.getBatchByIndex r.index = some r.toCommitData := by
  unfold getBatchByIndex
  cases hfind : db.batchCommits.rows.find?
      (fun q => q.index = r.index ∧ q.revertedBlockNumber = none) with
  | none =>
    have hnot := List.find?_eq_none.1 hfind r hr
    exact absurd (decide_eq_true ⟨rfl, hlive⟩) hnot
  | some q =>
    have hq := List.mem_of_find?_eq_some hfind
    have hfound := List.find?_some hfind
    have hfound := of_decide_eq_true hfound
    rw [db.batchCommits.eq_of_key hq hr (halone q hq hfound.2 hfound.1)]
    rfl

end Db
end RollupNode
